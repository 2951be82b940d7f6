import ScriptAtlas.Document.Lookup
import ScriptAtlas.Path.Script
import ScriptAtlas.Sorting

/-! # Symbol index — where names are defined and where they appear

    The index is drawn from all tracked scripts in path order.  Threads, labels,
    parameters and writes are definitions; every appearance of a name is a
    site.  A name with `::` in it is looked up in the one script that stands
    before it. -/

namespace ScriptAtlas

open Text

/-- The kinds of definitions, the preferred first. -/
inductive DefinitionKind where
  | thread
  | label
  | parameter
  | var
deriving DecidableEq, Repr

/-- The rank of a kind in the order of preference. -/
def DefinitionKind.rank : DefinitionKind → Nat
  | thread => 0
  | label => 1
  | parameter => 2
  | var => 3

/-- A range in a tracked file. -/
structure Location where
  path : Path
  span : Span
deriving DecidableEq, Repr

/-- The order of locations: by path, then by line and column of the start. -/
def Location.order : Location → Location → Ordering :=
  compareLex (compareOn (·.path.key)) fun a b => a.span.start.order b.span.start

/-- A definition, with the thread that owns it. -/
structure Definition where
  name : Text
  kind : DefinitionKind
  location : Location
  thread : Option Text
  owner : Option Nat
deriving DecidableEq, Repr

/-- An appearance of a name. -/
structure Reference where
  location : Location
  isDefinition : Bool
  owner : Option Nat
deriving DecidableEq, Repr

/-- The definitions and appearances of all names. -/
structure SymbolIndex where
  /-- The definitions by symbol, script by script. -/
  definitions : List (Symbol × Definition)
  /-- The appearances by symbol, script by script. -/
  references : List (Symbol × Reference)
  catalog : Catalog
  /-- For each file, the tracked files it includes. -/
  includes : List (Path × List Path)
deriving DecidableEq, Repr

namespace SymbolIndex

/-- The definition of a thread. -/
def ofThread (path : Path) (t : Thread) : Symbol × Definition :=
  (.ofName t.name, ⟨t.name, .thread, ⟨path, t.span⟩, none, none⟩)

/-- The definition of a label. -/
def ofLabel (path : Path) (l : Label) : Symbol × Definition :=
  (.ofName l.name, ⟨l.name, .label, ⟨path, l.span⟩, some l.thread, some l.owner⟩)

/-- The definition that a defining occurrence of a variable makes: a parameter if it stands in the
    header of a thread that lists it, and else a variable. -/
def ofOccurrence? (path : Path) (d : Document) (o : Occurrence) : Option (Symbol × Definition) :=
  match o.symbol, o.isDefinition with
  | .qualified name, true =>
    let thread := o.owner.bind fun index => d.threads[index]?
    let kind :=
      if thread.any fun t => t.hasParameter name && t.line == o.span.start.line then .parameter
      else .var
    some (o.symbol, ⟨name, kind, ⟨path, o.span⟩, thread.map (·.name), o.owner⟩)
  | _, _ => none

/-- The definitions of a document. -/
def definitionsIn (path : Path) (d : Document) : List (Symbol × Definition) :=
  d.threads.map (ofThread path) ++ d.labels.map (ofLabel path)
    ++ d.occurrences.filterMap (ofOccurrence? path d)

/-- The appearances in a document. -/
def referencesIn (path : Path) (d : Document) : List (Symbol × Reference) :=
  d.occurrences.map fun o => (o.symbol, ⟨⟨path, o.span⟩, o.isDefinition, o.owner⟩)

/-- The tracked files that a document includes, each once. -/
def includesIn (catalog : Catalog) (path : Path) (d : Document) : List Path :=
  distinctBy Path.key (d.includes.filterMap fun i => catalog.resolve i.rawPath (some path))

/-- The index of documents, given with their tracked paths and in path order. -/
def build (root : Path) (documents : List (Path × Document)) : SymbolIndex :=
  let catalog := Catalog.ofFiles root (documents.map (·.1))
  { definitions := documents.flatMap fun (p, d) => definitionsIn p d
    references := documents.flatMap fun (p, d) => referencesIn p d
    catalog
    includes := documents.map fun (p, d) => (p, includesIn catalog p d) }

/-- The definitions of a symbol, in the order of their locations. -/
def definitionsOf (ix : SymbolIndex) (s : Symbol) : List Definition :=
  sortBy (fun a b => a.location.order b.location)
    ((ix.definitions.filter fun entry => entry.1 == s).map (·.2))

/-- The symbol that a written name refers to; of `path::name` the last part counts. -/
def symbolOf (name : Text) : Symbol :=
  match breakOnLast "::".toList name with
  | some (_, thread) => .ofName thread
  | none => .ofText name

/-- Every definition of a name.  Of `path::name`, the threads and labels of that script. -/
def findAll (ix : SymbolIndex) (name : Text) : List Definition :=
  match breakOnLast "::".toList name with
  | some (raw, thread) =>
    match ix.catalog.resolve raw none with
    | none => []
    | some file =>
      (ix.definitionsOf (.ofName thread)).filter fun d =>
        d.location.path.same file && (d.kind == .thread || d.kind == .label)
  | none => ix.definitionsOf (.ofText name)

/-- The preferred definition of a name: by kind, then by location. -/
def find? (ix : SymbolIndex) (name : Text) : Option Definition :=
  leastBy (fun d => d.kind.rank) (ix.findAll name)

/-- The tracked files that a file includes. -/
def includesOf (ix : SymbolIndex) (file : Path) : List Path :=
  ((ix.includes.find? fun entry => entry.1.same file).map (·.2)).getD []

/-- How near a definition is: in the file itself, in a file that it includes, or elsewhere. -/
def distance (ix : SymbolIndex) (file : Path) (d : Definition) : Nat :=
  if d.location.path.same file then 0
  else if (ix.includesOf file).any (·.same d.location.path) then 1
  else 2

/-- The preferred definition of a name as seen from a file: by distance, then by kind, then by
    location. -/
def findFrom? (ix : SymbolIndex) (name : Text) (file : Path) : Option Definition :=
  leastBy (fun d => [ix.distance file d, d.kind.rank]) (ix.findAll name)

/-- The appearances of a name, with or without its definitions. -/
def findReferences (ix : SymbolIndex) (name : Text) (withDefinitions : Bool) : List Reference :=
  (ix.references.filter fun entry =>
    entry.1 == symbolOf name && (withDefinitions || !entry.2.isDefinition)).map (·.2)

/-- The number of appearances of a name. -/
def referenceCount (ix : SymbolIndex) (name : Text) (withDefinitions : Bool) : Nat :=
  (ix.findReferences name withDefinitions).length

/-- The number of threads, file by file, in which a name is referred to. -/
def callerCount (ix : SymbolIndex) (name : Text) : Nat :=
  (distinctBy (fun r : Reference => (r.location.path.key, r.owner))
    (ix.findReferences name false)).length

/-- Whether a name is defined as a thread. -/
def isThread (ix : SymbolIndex) (name : Text) : Bool :=
  (ix.findAll name).any (·.kind == .thread)

/-- Every definition, in the order of symbols. -/
def all (ix : SymbolIndex) : List Definition :=
  (sortBy Symbol.order ((ix.definitions.map (·.1)).eraseDups)).flatMap ix.definitionsOf

/-- Every thread, in the order of symbols. -/
def threads (ix : SymbolIndex) : List Definition := ix.all.filter (·.kind == .thread)

end SymbolIndex

end ScriptAtlas
