import ScriptAtlas.Disk
import ScriptAtlas.Document.Basic
import ScriptAtlas.Path.Script
import ScriptAtlas.Settings.Basic
import ScriptAtlas.Sorting

/-! # Include graph — which scripts name which

    Every tracked script is a node, and so is every file on the disk that a
    script names.  Every include is an edge; the ones that name no file are
    kept and lead nowhere.  An `#include` is unused when no thread of its target
    is mentioned in the text of the including script. -/

namespace ScriptAtlas

open Text

/-- How an include finds its file: among the tracked ones and, if the disk is looked at, also
    there. -/
structure Resolver where
  catalog : Catalog
  /-- The disk, if it is looked at. -/
  disk : Option Disk

/-- The files on a disk that a raw path may name: below the root, or beside the including file. -/
def Catalog.candidates (root : Path) (raw : Text) (file : Option Path) : List Path :=
  root.join ⟨ScriptPath.unquote raw⟩ :: (file.bind fun f => besides? f raw).toList

/-- The file that a raw path names: a tracked one, or else one on the disk below the root or beside
    the including file. -/
def Resolver.resolve (r : Resolver) (raw : Text) (file : Option Path) : Option Path :=
  match r.catalog.resolve raw file with
  | some target => some target
  | none =>
    match r.disk with
    | none => none
    | some disk => (Catalog.candidates r.catalog.root raw file).find? disk.isFile

/-- An include, with the file that it names. -/
structure Edge where
  source : Path
  rawPath : Text
  target : Option Path
  kind : IncludeKind
  span : Span
  /-- No thread of the target is mentioned in the source. -/
  unused : Bool
deriving DecidableEq, Repr

/-- The includes of all tracked scripts. -/
structure IncludeGraph where
  /-- The tracked scripts in path order, then the other files as edges name them. -/
  nodes : List Path
  /-- The includes, script by script in path order. -/
  edges : List Edge
  /-- How many includes a closure of dependents follows. -/
  maxDepth : Nat
deriving DecidableEq, Repr

/-- A tracked script as the graph sees it. -/
structure Source where
  path : Path
  text : Text
  document : Document

namespace IncludeGraph

/-- Whether a text mentions the name of a thread of a document, in any letter case. -/
def mentionsThread (text : Text) (d : Document) : Bool :=
  d.threads.any fun t => occursIn (lower t.name) (lower text)

/-- Whether an `#include` of a tracked script is of no use. -/
def isUnused (sources : List Source) (s : Source) (kind : IncludeKind) (target : Option Path) :
    Bool :=
  match kind, target.bind fun t => sources.find? (·.path.same t) with
  | .directive, some included => !mentionsThread s.text included.document
  | _, _ => false

/-- The edges of a script. -/
def edgesOf (resolver : Resolver) (sources : List Source) (s : Source) : List Edge :=
  s.document.includes.map fun i =>
    let target := resolver.resolve i.rawPath (some s.path)
    ⟨s.path, i.rawPath, target, i.kind, i.span, isUnused sources s i.kind target⟩

/-- The graph of scripts given in path order. -/
def build (root : Path) (disk : Option Disk) (maxDepth : Nat) (sources : List Source) :
    IncludeGraph :=
  let tracked := sources.map (·.path)
  let resolver : Resolver := ⟨Catalog.ofFiles root tracked, disk⟩
  let edges := sources.flatMap (edgesOf resolver sources)
  { nodes := distinctBy Path.key (tracked ++ edges.filterMap (·.target))
    edges
    maxDepth := min maxDepth depthLimit }

/-- The number of the node for a path. -/
def indexOf? (g : IncludeGraph) (p : Path) : Option Nat := g.nodes.findIdx? (·.same p)

/-- The ends of an edge that leads somewhere. -/
def ends? (g : IncludeGraph) (e : Edge) : Option (Nat × Nat) := do
  let source ← g.indexOf? e.source
  let target ← g.indexOf? (← e.target)
  return (source, target)

/-- The edges that lead somewhere, as pairs of nodes. -/
def links (g : IncludeGraph) : List (Nat × Nat) := g.edges.filterMap g.ends?

/-- The edges of a file, with their numbers. -/
def edgesFrom (g : IncludeGraph) (p : Path) : List (Nat × Edge) :=
  (g.edges.zipIdx.filter fun (e, _) => e.source.same p).map fun (e, index) => (index, e)

/-- The edges that lead nowhere. -/
def unresolved (g : IncludeGraph) : List Edge := g.edges.filter (·.target.isNone)

/-- The files that no edge leads to, in path order. -/
def roots (g : IncludeGraph) : List Path :=
  let targets := g.links.map (·.2)
  sortBy Path.order ((g.nodes.zipIdx.filter fun (_, index) => !targets.contains index).map (·.1))

/-- The paths of nodes. -/
def pathsOf (g : IncludeGraph) (indices : List Nat) : List Path :=
  indices.filterMap fun index => g.nodes[index]?

end IncludeGraph

end ScriptAtlas
