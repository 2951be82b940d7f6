import ScriptAtlas.Includes.Snapshot
import ScriptAtlas.Path.Map
import ScriptAtlas.Symbols.Index
import ScriptAtlas.Token.Basic

/-! # Workspace — the tracked scripts and what follows from them

    A workspace tracks scripts by path: their documents and, apart from them,
    their texts.  The symbol index and the include graph follow from these.
    Both are kept from the time they are first asked for until a script
    changes.  The graph may look at the disk, so files that appear there in
    between are not noticed. -/

namespace ScriptAtlas

open Text

/-- The tracked scripts below a root. -/
structure Workspace where
  root : Path
  /-- Whether includes may name files that are not tracked. -/
  checkDisk : Bool
  maxDepth : Nat
  /-- The documents by path; each carries its path as it was last given. -/
  documents : PathMap Document
  texts : PathMap Text
  /-- The symbol index, if it has been asked for since the last change. -/
  index : Option SymbolIndex
  /-- The include graph, if it has been asked for since the last change. -/
  graph : Option IncludeGraph

/-- Why a workspace cannot be read from the disk. -/
inductive WorkspaceError where
  | notADirectory (root : Path)
  | read (path : Path) (cause : DiskError)
deriving DecidableEq, Repr

/-- The error in words. -/
def WorkspaceError.message : WorkspaceError → String
  | notADirectory root => "workspace root " ++ root.text.asString ++ " is not a directory"
  | read path cause => "failed to read " ++ path.text.asString ++ ": " ++ cause.message

namespace Workspace

/-- A workspace that tracks nothing. -/
def empty (settings : Settings) (root : Path) : Workspace :=
  { root, checkDisk := settings.checkDisk, maxDepth := settings.maxDepth, documents := [],
    texts := [], index := none, graph := none }

/-- Forgets the symbol index and the include graph. -/
def invalidate (w : Workspace) : Workspace := { w with index := none, graph := none }

/-- Tracks a text at a path, in place of what was tracked there. -/
def upsert (w : Workspace) (path : Path) (text : Text) : Workspace :=
  { w with
    documents := w.documents.put path (.read path text)
    texts := w.texts.put path text }.invalidate

/-- Tracks nothing at a path any longer. -/
def remove (w : Workspace) (path : Path) : Workspace :=
  { w with documents := w.documents.erase path, texts := w.texts.erase path }.invalidate

/-- Tracks the file at a path of the disk. -/
def load (w : Workspace) (disk : Disk) (path : Path) : Except WorkspaceError Workspace :=
  match disk.readText path with
  | .ok text => .ok (w.upsert path text)
  | .error cause => .error (.read path cause)

/-- The workspace of all scripts below a directory of the disk. -/
def ofDirectory (settings : Settings) (disk : Disk) (root : Path) :
    Except WorkspaceError Workspace :=
  if disk.isDirectory root then
    .ok ((disk.scriptsBelow root).foldl (fun w (path, text) => w.upsert path text)
      (empty settings root))
  else .error (.notADirectory root)

/-- The document tracked at a path. -/
def document? (w : Workspace) (path : Path) : Option Document := w.documents.get? path

/-- The text tracked at a path. -/
def text? (w : Workspace) (path : Path) : Option Text := w.texts.get? path

/-- The tracked paths, in path order. -/
def tracked (w : Workspace) : List Path := w.documents.keys

/-- The symbol index, as it would be built now. -/
def freshIndex (w : Workspace) : SymbolIndex := .build w.root w.documents

/-- The symbol index: the one that is kept, or else a new one. -/
def symbolIndex (w : Workspace) : SymbolIndex := w.index.getD w.freshIndex

/-- Keeps the symbol index from now on. -/
def keepIndex (w : Workspace) : Workspace := { w with index := some w.symbolIndex }

/-- The disk, if includes may name files that are not tracked. -/
def diskInView (w : Workspace) (disk : Disk) : Option Disk :=
  if w.checkDisk then some disk else none

/-- The include graph, as it would be built now. -/
def freshGraph (w : Workspace) (disk : Disk) : IncludeGraph :=
  .build w.root (w.diskInView disk) w.maxDepth
    (w.documents.map fun (p, d) => ⟨p, (w.text? p).getD [], d⟩)

/-- The include graph: the one that is kept, or else a new one. -/
def includeGraph (w : Workspace) (disk : Disk) : IncludeGraph := w.graph.getD (w.freshGraph disk)

/-- Keeps the include graph from now on. -/
def keepGraph (w : Workspace) (disk : Disk) : Workspace :=
  { w with graph := some (w.includeGraph disk) }

/-- The file that a raw path names, as includes are resolved. -/
def resolve (w : Workspace) (disk : Disk) (raw : Text) (file : Option Path) : Option Path :=
  Resolver.resolve ⟨w.symbolIndex.catalog, w.diskInView disk⟩ raw file

/-- The files on a disk that the includes of the tracked scripts may name. -/
def candidates (w : Workspace) : List Path :=
  w.documents.flatMap fun (p, d) =>
    d.includes.flatMap fun i => Catalog.candidates w.root i.rawPath (some p)

/-- The script path of a file. -/
def scriptPath (w : Workspace) (path : Path) : Text := w.symbolIndex.catalog.scriptPath path

/-- A display line of a tracked script, as it is shown. -/
def displayLine? (w : Workspace) (path : Path) (line : Nat) : Option Text :=
  (w.text? path).bind fun t => Text.displayLine? t line

/-- The include graph in script paths. -/
def snapshot (w : Workspace) (disk : Disk) : Snapshot :=
  (w.includeGraph disk).snapshot w.symbolIndex.catalog

/-- What documents list, with the path of each: of the document at one path under the spelling
    given, or of all documents under their tracked paths. -/
def select {α : Type} (w : Workspace) (path : Option Path) (items : Document → List α) :
    List (Path × α) :=
  match path with
  | some p => (((w.document? p).map items).getD []).map fun a => (p, a)
  | none => w.documents.flatMap fun (p, d) => (items d).map fun a => (p, a)

end Workspace

end ScriptAtlas
