import ScriptAtlas.Path.Uri
import ScriptAtlas.Workspace.Basic

/-! # Navigation — from the cursor to definitions and references

    Answers are places as editors name them, so only files with an absolute
    path can be answered.  A local variable never leaves its thread, and a label
    of the thread around the cursor comes before a thread of the same name. -/

namespace ScriptAtlas

open Text

/-- A range in a file named by its URI. -/
structure Place where
  uri : Text
  span : Span
deriving DecidableEq, Repr

/-- The place of a range in a file. -/
def Place.of? (path : Path) (span : Span) : Option Place :=
  (Uri.ofPath? path).map fun uri => ⟨uri, span⟩

namespace Workspace

/-- Whether a name is a local variable. -/
def isLocalName (name : Text) : Bool :=
  match breakOn ['.'] name with
  | some (word, _) => Scope.ofWord? word == some .threadLocal
  | none => false

/-- The script that the lexeme under the cursor names: a path, or the string of an include that ends
    with it. -/
def includedPath? (d : Document) (l : Lexeme) : Option Text :=
  match l.kind with
  | .pathRef => some l.text
  | .string =>
    (d.includes.find? fun i =>
      i.span.start.line == l.line && i.span.stop.column == l.endColumn).map (·.rawPath)
  | _ => none

/-- The range of a thread, or else of a label, with that name. -/
def spanOf? (d : Document) (name : Text) : Option Span :=
  match d.threads.find? fun t => sameName t.name name with
  | some t => some t.span
  | none => (d.labels.find? fun l => sameName l.name name).map (·.span)

/-- The definition of `raw::name`, in the script that `raw` names. -/
def crossDefinition? (w : Workspace) (disk : Disk) (path : Path) (raw name : Text) :
    Option (List Place) := do
  let target ← w.resolve disk raw (some path)
  let span ← spanOf? (← w.document? target) name
  return [← Place.of? target span]

/-- The first definition of a local variable within a thread. -/
def localDefinition (w : Workspace) (path : Path) (owner : Option Nat) (name : Text) :
    List Place :=
  let here := (w.symbolIndex.findAll name).filter fun d =>
    d.location.path.same path && d.owner == owner
  (here.filterMap fun d => Place.of? path d.location.span).take 1

/-- Where the symbol with that name is defined, as seen from a line of a document. -/
def symbolDefinition? (w : Workspace) (disk : Disk) (path : Path) (d : Document) (line : Nat)
    (name : Text) : Option (List Place) :=
  let owner := d.threadIndexAt line
  match breakOnLast "::".toList name with
  | some (raw, thread) => w.crossDefinition? disk path raw thread
  | none =>
    if isLocalName name then some (w.localDefinition path owner name)
    else
      match owner.bind fun index => d.findLabel index name with
      | some label => (Place.of? path label.span).map ([·])
      | none =>
        (w.symbolIndex.findFrom? name path).bind fun definition =>
          (Place.of? definition.location.path definition.location.span).map ([·])

/-- Where what lies under the cursor is defined. -/
def definitionAt (w : Workspace) (disk : Disk) (path : Path) (cursor : Position) :
    Option (List Place) := do
  let d ← w.document? path
  let l ← d.lexemeAt cursor
  match includedPath? d l with
  | some raw =>
    let target ← w.resolve disk raw (some path)
    return [← Place.of? target .fileStart]
  | none => w.symbolDefinition? disk path d cursor.line (← d.symbolAt cursor)

/-- Where the symbol under the cursor appears.  Local variables and labels of the thread around the
    cursor are looked for in that thread only. -/
def referencesAt (w : Workspace) (path : Path) (cursor : Position) (withDefinitions : Bool) :
    Option (List Place) := do
  let d ← w.document? path
  let name ← d.symbolAt cursor
  let owner := d.threadIndexAt cursor.line
  let inThread := isLocalName name || owner.any fun index => (d.findLabel index name).isSome
  let sites := (w.symbolIndex.findReferences name withDefinitions).filter fun r =>
    !inThread || (r.location.path.same path && r.owner == owner)
  return sites.filterMap fun r => Place.of? r.location.path r.location.span

end Workspace

end ScriptAtlas
