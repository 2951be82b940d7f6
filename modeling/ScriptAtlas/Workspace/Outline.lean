import ScriptAtlas.Workspace.Basic

/-! # Outline — the threads of a script and what they hold

    Each thread is an entry from its header to the line that ends it: its own
    `end`, else the line before the next header, else the last line.  Its
    parameters, labels and first writes are listed below it in order. -/

namespace ScriptAtlas

/-- The kinds of outline entries. -/
inductive EntryKind where
  | thread
  | label
  | var
  | parameter
deriving DecidableEq, Repr

/-- An entry below a thread. -/
structure OutlineLeaf where
  name : Text
  kind : EntryKind
  span : Span
deriving DecidableEq, Repr

/-- An entry for a thread. -/
structure OutlineThread where
  name : Text
  role : ThreadRole
  /-- From the name to the end of the last line. -/
  span : Span
  /-- The range of the name. -/
  nameSpan : Span
  children : List OutlineLeaf
deriving DecidableEq, Repr

/-- What is said beside an entry below a thread. -/
def OutlineLeaf.detail (l : OutlineLeaf) : Option String :=
  if l.kind == .label then some "label" else none

/-- What is said beside a thread: how the engine runs it. -/
def OutlineThread.detail (t : OutlineThread) : Option String :=
  match t.role with
  | .plain => none
  | .entryPoint => some "entry point"
  | .engineCallback => some "engine callback"

namespace Outline

/-- The parameters of a thread, where its header defines them. -/
def parameters (d : Document) (owner : Nat) (t : Thread) : List OutlineLeaf :=
  (d.occurrences.filter fun o =>
    o.isDefinition && o.owner == some owner && o.span.start.line == t.line
      && t.hasParameter o.symbol.text).map fun o => ⟨o.symbol.text, .parameter, o.span⟩

/-- The labels of a thread. -/
def labels (d : Document) (owner : Nat) : List OutlineLeaf :=
  (d.labelsOf owner).map fun l => ⟨l.name, .label, l.span⟩

/-- The variables that a thread writes, at their first write. -/
def firstWrites (d : Document) (owner : Nat) : List OutlineLeaf :=
  (distinctBy Binding.qualified (d.bindings.filter (·.owner == owner))).map fun b =>
    ⟨b.qualified, .var, b.span⟩

/-- What a thread holds, by line and column. -/
def children (d : Document) (owner : Nat) (t : Thread) : List OutlineLeaf :=
  sortBy (fun a b => a.span.start.order b.span.start)
    (parameters d owner t ++ labels d owner ++ firstWrites d owner)

/-- The last line of a thread. -/
def lastLine (d : Document) (owner : Nat) (t : Thread) : Nat :=
  match t.endLine, d.threads[owner + 1]? with
  | some line, _ => line
  | none, some next => next.line - 1
  | none, none => d.lines.length - 1

/-- The entry of a thread; `width` gives the length of a line as it is shown. -/
def entry (d : Document) (width : Nat → Nat) (owner : Nat) (t : Thread) : OutlineThread :=
  let last := lastLine d owner t
  { name := t.name
    role := t.role
    span := ⟨t.span.start, ⟨last, width last⟩⟩
    nameSpan := t.span
    children := children d owner t }

end Outline

/-- The outline of a tracked script; a script without threads has none. -/
def Workspace.outline (w : Workspace) (path : Path) : Option (List OutlineThread) :=
  (w.document? path).bind fun d =>
    if d.threads.isEmpty then none
    else
      let width := fun line => ((w.displayLine? path line).map List.length).getD 0
      some (d.threads.zipIdx.map fun (t, owner) => Outline.entry d width owner t)

end ScriptAtlas
