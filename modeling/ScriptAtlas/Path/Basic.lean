import ScriptAtlas.Text.Basic

/-! # Paths — file paths as written, compared part by part

    A path keeps the text it was given.  Equality and order look at its parts:
    a leading root or `.`, then names and `..`, where repeated separators,
    inner `.` and a trailing separator count for nothing.  The order puts the
    root before `.`, `.` before `..` and those before names, and names compare
    by code points. -/

namespace ScriptAtlas

open Text (breakOnLast)

/-- A file path, as it was written. -/
structure Path where
  text : Text
deriving DecidableEq, Repr

namespace Path

/-- A part of a path. -/
inductive Part where
  /-- The leading separator of an absolute path. -/
  | root
  /-- A leading `.`. -/
  | here
  /-- A `..`. -/
  | up
  | name (n : Text)
deriving DecidableEq, Repr

namespace Part

/-- The part as it is written. -/
def text : Part → Text
  | root => []
  | here => ['.']
  | up => ['.', '.']
  | name n => n

/-- A list of numbers whose lexicographic order is the order of parts. -/
def key : Part → List Nat
  | root => [0]
  | here => [1]
  | up => [2]
  | name n => 3 :: n.map Char.toNat

end Part

/-- The path with that text. -/
def ofString (s : String) : Path := ⟨s.toList⟩

/-- A segment between separators that adds nothing to the path. -/
def isTrivial (segment : Text) : Bool := segment.isEmpty || segment == ['.']

/-- The leading part, its text, and what follows it. -/
def leading : Text → Option Part × Text × Text
  | '/' :: rest => (some .root, ['/'], rest)
  | ['.'] => (some .here, ['.'], [])
  | '.' :: '/' :: rest => (some .here, ['.'], '/' :: rest)
  | t => (none, [], t)

/-- The part that a segment other than a trivial one stands for. -/
def partOf (segment : Text) : Part := if segment == ['.', '.'] then .up else .name segment

/-- The parts of a path. -/
def parts (p : Path) : List Part :=
  let (lead, _, body) := leading p.text
  lead.toList ++ ((body.splitOn '/').filter (!isTrivial ·)).map partOf

/-- Equal keys make equal paths, and the order of keys is the order of paths. -/
def key (p : Path) : List (List Nat) := p.parts.map Part.key

/-- Whether two spellings are the same path. -/
def same (p q : Path) : Bool := p.key == q.key

/-- The order of paths. -/
def order : Path → Path → Ordering := compareOn key

/-- Whether the path starts at the root. -/
def isAbsolute (p : Path) : Bool := p.text.head? == some '/'

/-- The path below this one; an absolute path replaces it. -/
def join (p q : Path) : Path :=
  if q.isAbsolute then q
  else if p.text.isEmpty || p.text.getLast? == some '/' then ⟨p.text ++ q.text⟩
  else ⟨p.text ++ '/' :: q.text⟩

/-- Segments without the trivial ones at their end. -/
def dropTrivial (segments : List Text) : List Text :=
  (segments.reverse.dropWhile isTrivial).reverse

/-- The path without its last part.  The root and the empty path have no parent. -/
def parent? (p : Path) : Option Path :=
  let (lead, leadText, body) := leading p.text
  match dropTrivial (body.splitOn '/') with
  | [] =>
    match lead with
    | some .here => some ⟨[]⟩
    | _ => none
  | segments =>
    some ⟨leadText ++ ['/'].intercalate (dropTrivial segments.dropLast)⟩

/-- The last part, if it is a name. -/
def fileName? (p : Path) : Option Text :=
  match p.parts.getLast? with
  | some (.name n) => some n
  | _ => none

/-- What follows the last dot of the file name, unless the dot starts the name. -/
def extension? (p : Path) : Option Text :=
  match p.fileName?.bind (breakOnLast ['.']) with
  | some (before, after) => if before.isEmpty then none else some after
  | none => none

/-- Whether the file is a script. -/
def isScript (p : Path) : Bool := p.extension?.any fun e => Text.sameName e "scr".toList

/-- The text of a list of parts. -/
def render : List Part → Text
  | .root :: ps => '/' :: ['/'].intercalate (ps.map Part.text)
  | ps => ['/'].intercalate (ps.map Part.text)

/-- The parts after those of `base`, if the path starts with them. -/
def partsAfter? : (base path : List Part) → Option (List Part)
  | [], ps => some ps
  | _ :: _, [] => none
  | b :: bs, p :: ps => if b == p then partsAfter? bs ps else none

/-- The parts that lead from `base` to a path, once what they share has been taken off: one step up
    for each part left of the base.  There is no way if the base goes on with `..`. -/
def partsFrom? : (base path : List Part) → Option (List Part)
  | [], ps => some ps
  | bs, [] => some (bs.map fun _ => .up)
  | b :: bs, p :: ps =>
    if b == p then partsFrom? bs ps
    else if b == .up then none
    else some (.up :: bs.map (fun _ => .up) ++ p :: ps)

end Path

end ScriptAtlas
