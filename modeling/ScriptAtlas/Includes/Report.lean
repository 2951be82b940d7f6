import ScriptAtlas.Includes.Snapshot

/-! # Graph reports — the include graph as lines or as JSON

    As lines, the edges stand below the script that they start from, then come
    the roots and the cycles.  As JSON, every list and object takes a line for
    each member, two spaces deeper than itself, and is closed at once if it has
    none. -/

namespace ScriptAtlas

/-- A JSON document, as far as graphs need it. -/
inductive JsonDocument where
  | null
  | bool (b : Bool)
  | text (t : Text)
  | list (items : List JsonDocument)
  | object (members : List (String × JsonDocument))

namespace JsonDocument

/-- A control character as JSON writes it. -/
def escapeControl (c : Char) : Text :=
  if c == '\x08' then ['\\', 'b']
  else if c == '\x0c' then ['\\', 'f']
  else if c == '\n' then ['\\', 'n']
  else if c == '\r' then ['\\', 'r']
  else if c == '\t' then ['\\', 't']
  else
    let digits := Nat.toDigits 16 c.toNat
    ['\\', 'u'] ++ List.replicate (4 - digits.length) '0' ++ digits

/-- A character as JSON writes it. -/
def escape (c : Char) : Text :=
  if c == '"' then ['\\', '"']
  else if c == '\\' then ['\\', '\\']
  else if c.toNat < 0x20 then escapeControl c
  else [c]

/-- A text between quotes as JSON writes it. -/
def quoted (t : Text) : Text := '"' :: t.flatMap escape ++ ['"']

/-- A line break and blanks up to a depth. -/
def newLine (depth : Nat) : Text := '\n' :: List.replicate (2 * depth) ' '

/-- Members between two signs, each on a line one step deeper. -/
def enclose (first last : Char) (depth : Nat) (members : List Text) : Text :=
  if members.isEmpty then [first, last]
  else
    let lines := members.map fun m => newLine (depth + 1) ++ m
    first :: [','].intercalate lines ++ newLine depth ++ [last]

mutual

/-- A document whose first line stands at a depth. -/
def render (depth : Nat) : JsonDocument → Text
  | null => "null".toList
  | bool b => (toString b).toList
  | text t => quoted t
  | list items => enclose '[' ']' depth (renderItems (depth + 1) items)
  | object members => enclose '\x7b' '\x7d' depth (renderMembers (depth + 1) members)

/-- The items of a list. -/
def renderItems (depth : Nat) : List JsonDocument → List Text
  | [] => []
  | item :: rest => render depth item :: renderItems depth rest

/-- The members of an object. -/
def renderMembers (depth : Nat) : List (String × JsonDocument) → List Text
  | [] => []
  | (key, value) :: rest =>
    (quoted key.toList ++ [':', ' '] ++ render depth value) :: renderMembers depth rest

end

end JsonDocument

/-- The kind of an include as graphs name it. -/
def IncludeKind.name : IncludeKind → String
  | directive => "Include"
  | exec => "Exec"

/-- The kind of an include as lines name it. -/
def IncludeKind.word : IncludeKind → String
  | directive => "include"
  | exec => "exec"

namespace Snapshot

/-- An edge as a JSON object. -/
def edgeDocument (e : SnapshotEdge) : JsonDocument :=
  .object [("from", .text e.source), ("to", (e.target.map JsonDocument.text).getD .null),
    ("raw_path", .text e.rawPath), ("kind", .text e.kind.name.toList), ("unused", .bool e.unused)]

/-- The graph as a JSON object. -/
def document (s : Snapshot) : JsonDocument :=
  let texts := fun (ts : List Text) => JsonDocument.list (ts.map .text)
  .object [("nodes", texts s.nodes), ("edges", .list (s.edges.map edgeDocument)),
    ("roots", texts s.roots), ("cycles", .list (s.cycles.map texts))]

/-- The graph as JSON. -/
def json (s : Snapshot) : String := (s.document.render 0).asString

/-- An edge as a line. -/
def edgeLine (e : SnapshotEdge) : String :=
  "  " ++ e.kind.word ++ " " ++ e.rawPath.asString ++ " -> "
    ++ ((e.target.map Text.asString).getD "<missing>") ++ (if e.unused then " (unused)" else "")

/-- The edges as lines, each row of edges from one script below a line with its path. -/
def edgeLines : (source : Option Text) → List SnapshotEdge → List String
  | _, [] => []
  | source, e :: rest =>
    let header := if source == some e.source then [] else [e.source.asString]
    header ++ edgeLine e :: edgeLines (some e.source) rest

/-- A cycle as a line, back to its first script. -/
def cycleLine (cycle : List Text) : String :=
  "cycle: " ++ " -> ".intercalate ((cycle ++ cycle.take 1).map Text.asString)

/-- The roots as a line, if there are any. -/
def rootLines (s : Snapshot) : List String :=
  if s.roots.isEmpty then [] else ["roots: " ++ ", ".intercalate (s.roots.map Text.asString)]

/-- The graph as lines. -/
def lines (s : Snapshot) : List String :=
  (toString s.nodes.length ++ " scripts, " ++ toString s.edges.length ++ " edges")
    :: edgeLines none s.edges ++ s.rootLines ++ s.cycles.map cycleLine

end Snapshot

end ScriptAtlas
