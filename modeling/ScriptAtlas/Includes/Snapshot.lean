import ScriptAtlas.Includes.Cycle

/-! # Snapshots — the include graph in script paths

    What a report or a drawing of the graph shows: nodes and edges by script
    path, the roots and the cycles. -/

namespace ScriptAtlas

/-- An edge in script paths. -/
structure SnapshotEdge where
  source : Text
  target : Option Text
  rawPath : Text
  kind : IncludeKind
  unused : Bool
deriving DecidableEq, Repr

/-- The graph in script paths. -/
structure Snapshot where
  nodes : List Text
  edges : List SnapshotEdge
  roots : List Text
  cycles : List (List Text)
deriving DecidableEq, Repr

/-- The graph in the script paths of a catalog, the nodes in the order of their texts. -/
def IncludeGraph.snapshot (g : IncludeGraph) (c : Catalog) : Snapshot :=
  { nodes := sortBy (compareOn fun t : Text => t.map Char.toNat) (g.nodes.map c.scriptPath)
    edges := g.edges.map fun e =>
      ⟨c.scriptPath e.source, e.target.map c.scriptPath, e.rawPath, e.kind, e.unused⟩
    roots := g.roots.map c.scriptPath
    cycles := g.cycles.map fun cycle => cycle.map c.scriptPath }

end ScriptAtlas
