import ScriptAtlas.Includes.Closure
import ScriptAtlas.Includes.Snapshot
import ScriptAtlas.Proofs.Symbols.Spelling

/-! # Spelling in the include graph — respelled nodes, respelled answers

    Nodes are found by their keys and numbered by their place, so a graph with
    respelled nodes has the same links (`links_respell`).  Searches work on
    numbers: cycles and closures are the same numbers, and their files are
    respelled (`cycles_respell`, `closure_respell`).  A snapshot shows script
    paths only, so it does not change at all (`snapshot_respell`). -/

namespace ScriptAtlas

/-- The edge with its ends respelled. -/
def Edge.respell (f : Path → Path) (e : Edge) : Edge :=
  { e with source := f e.source, target := e.target.map f }

/-- Edges that are respelled alike differ in nothing but the spelling of their ends. -/
theorem Edge.of_respell_eq {f : Path → Path} {e e' : Edge} (h : e.respell f = e'.respell f) :
    e.target.map f = e'.target.map f ∧ e.rawPath = e'.rawPath ∧ e.kind = e'.kind
      ∧ e.span = e'.span ∧ e.unused = e'.unused := by
  simp only [respell, Edge.mk.injEq] at h
  obtain ⟨-, hraw, htarget, hkind, hspan, hunused⟩ := h
  exact ⟨htarget, hraw, hkind, hspan, hunused⟩

/-- The graph with all its paths respelled. -/
def IncludeGraph.respell (f : Path → Path) (g : IncludeGraph) : IncludeGraph :=
  { g with nodes := g.nodes.map f, edges := g.edges.map (Edge.respell f) }

namespace IncludeGraph

variable {f : Path → Path}

theorem respell_id (graph : IncludeGraph) : graph.respell id = graph := by
  have hedge : Edge.respell id = id := by
    funext e
    rw [Edge.respell, Option.map_id]
    rfl
  rw [respell, hedge, List.map_id, List.map_id]

/-- Respelling twice is respelling once. -/
theorem respell_respell (f g : Path → Path) (graph : IncludeGraph) :
    (graph.respell f).respell g = graph.respell (g ∘ f) := by
  simp [respell, Edge.respell, Function.comp_def]

/-! ## Paths of nodes -/

/-- Numbers stand for respelled files. -/
theorem pathsOf_respell (f : Path → Path) (g : IncludeGraph) (indices : List Nat) :
    (g.respell f).pathsOf indices = (g.pathsOf indices).map f := by
  rw [pathsOf, pathsOf, List.map_filterMap]
  refine List.filterMap_congr fun index _ => ?_
  exact List.getElem?_map

variable (hf : ∀ p, (f p).key = p.key)

include hf

/-! ## Links -/

/-- A respelled graph has each file at the same number. -/
theorem indexOf?_respell (g : IncludeGraph) : (g.respell f).indexOf? = g.indexOf? := by
  funext p
  show (g.nodes.map f).findIdx? (·.same p) = g.nodes.findIdx? (·.same p)
  rw [List.findIdx?_map]
  congr 1
  funext q
  exact Path.same_respell hf q p

/-- A respelled file has the same number. -/
theorem indexOf?_of_respelled (g : IncludeGraph) (p : Path) : g.indexOf? (f p) = g.indexOf? p := by
  simp only [indexOf?, Path.same_respell_right hf]

/-- A respelled edge has the same numbers at its ends. -/
theorem ends?_respell (g : IncludeGraph) (e : Edge) :
    (g.respell f).ends? (e.respell f) = g.ends? e := by
  have hsource : (g.respell f).indexOf? (e.respell f).source = g.indexOf? e.source := by
    rw [indexOf?_respell hf]
    exact indexOf?_of_respelled hf g e.source
  unfold ends?
  rw [hsource]
  cases g.indexOf? e.source with
  | none => rfl
  | some source =>
      show ((e.target.map f).bind fun t => ((g.respell f).indexOf? t).bind fun target =>
          some (source, target))
        = e.target.bind fun t => (g.indexOf? t).bind fun target => some (source, target)
      rw [indexOf?_respell hf, Option.bind_map]
      congr 1
      funext t
      show (g.indexOf? (f t)).bind _ = _
      rw [indexOf?_of_respelled hf]

/-- A respelled graph has the same links. -/
theorem links_respell (g : IncludeGraph) : (g.respell f).links = g.links := by
  show (g.edges.map (Edge.respell f)).filterMap (g.respell f).ends? = g.edges.filterMap g.ends?
  rw [List.filterMap_map]
  exact List.filterMap_congr fun e _ => ends?_respell hf g e

/-! ## Cycles -/

/-- Nodes are put in order by their keys. -/
theorem nodeOrder_respell (g : IncludeGraph) : (g.respell f).nodeOrder = g.nodeOrder := by
  have hkeys : ∀ n : Nat, (g.respell f).nodes[n]?.map Path.key = g.nodes[n]?.map Path.key := by
    intro n
    show (g.nodes.map f)[n]?.map Path.key = _
    rw [List.getElem?_map, Option.map_map]
    exact congrArg (Option.map · g.nodes[n]?) (funext hf)
  unfold nodeOrder
  simp only [hkeys]

/-- The search for cycles works on links and on the order of nodes alone. -/
theorem cycleNodes_respell (g : IncludeGraph) : (g.respell f).cycleNodes = g.cycleNodes := by
  have hcount : (g.respell f).nodes.length = g.nodes.length := List.length_map f
  have hsuccessors : (g.respell f).successors = g.successors := by
    funext links n
    rw [successors, successors, nodeOrder_respell hf]
  unfold cycleNodes
  rw [links_respell hf, hcount, hsuccessors, nodeOrder_respell hf]

/-- So the cycles are the same, through respelled files. -/
theorem cycles_respell (g : IncludeGraph) : (g.respell f).cycles = g.cycles.map (·.map f) := by
  rw [cycles, cycleNodes_respell hf, cycles, List.map_map]
  exact List.map_congr_left fun indices _ => pathsOf_respell f g indices

theorem cyclesThrough_respell (g : IncludeGraph) (p : Path) :
    (g.respell f).cyclesThrough p = (g.cyclesThrough p).map (·.map f) := by
  rw [cyclesThrough, cycles_respell hf, List.filter_map, cyclesThrough]
  congr 2
  funext cycle
  show (cycle.map f).any (·.same p) = cycle.any (·.same p)
  rw [List.any_map]
  exact congrArg cycle.any (funext fun q => Path.same_respell hf q p)

/-! ## Edges and roots -/

/-- The edges of a file keep their numbers. -/
theorem edgesFrom_respell (g : IncludeGraph) (p : Path) :
    (g.respell f).edgesFrom p = (g.edgesFrom p).map fun e => (e.1, e.2.respell f) := by
  show (((g.edges.map (Edge.respell f)).zipIdx.filter fun e => e.1.source.same p).map
      fun e => (e.2, e.1))
    = ((g.edges.zipIdx.filter fun e => e.1.source.same p).map fun e => (e.2, e.1)).map _
  rw [List.zipIdx_map, List.filter_map, List.map_map, List.map_map]
  have hsame : ((fun e : Edge × Nat => e.1.source.same p) ∘ Prod.map (Edge.respell f) id)
      = fun e => e.1.source.same p := funext fun e => Path.same_respell hf e.1.source p
  rw [hsame]
  rfl

/-- Files that nothing includes stay such. -/
theorem roots_respell (g : IncludeGraph) : (g.respell f).roots = g.roots.map f := by
  have hnodes : ∀ targets : List Nat,
      ((g.nodes.map f).zipIdx.filter fun e => !targets.contains e.2).map (·.1)
        = ((g.nodes.zipIdx.filter fun e => !targets.contains e.2).map (·.1)).map f := by
    intro targets
    rw [List.zipIdx_map, List.filter_map, List.map_map, List.map_map]
    rfl
  show sortBy Path.order
      (((g.nodes.map f).zipIdx.filter
        fun e => !((g.respell f).links.map (·.2)).contains e.2).map (·.1)) = _
  rw [links_respell hf, hnodes]
  refine sortBy_map f (fun p q => ?_) _
  simp only [Path.order, compareOn, hf]

/-! ## Closures -/

/-- A search that goes by numbers lists respelled files. -/
theorem closure_respell (g : IncludeGraph) (neighbours : Nat → List Nat) (p : Path) (depth : Nat) :
    (g.respell f).closure neighbours p depth = (g.closure neighbours p depth).map f := by
  unfold closure
  rw [indexOf?_respell hf]
  cases g.indexOf? p with
  | none => rfl
  | some start => exact pathsOf_respell f g _

theorem dependencies_respell (g : IncludeGraph) (p : Path) (depth : Nat) :
    (g.respell f).dependencies p depth = (g.dependencies p depth).map f := by
  rw [dependencies, links_respell hf, closure_respell hf, dependencies]

/-- So do the dependents. -/
theorem dependents_respell (g : IncludeGraph) (p : Path) :
    (g.respell f).dependents p = (g.dependents p).map f := by
  rw [dependents, links_respell hf, closure_respell hf, dependents]
  rfl

omit hf

/-! ## Snapshots -/

/-- A snapshot does not show how paths are spelled. -/
theorem snapshot_respell {c : Catalog} (hf : ScriptPath.Respelling c.root f) (g : IncludeGraph) :
    (g.respell f).snapshot (c.respell f) = g.snapshot c := by
  -- every path in a snapshot is shown as a script path
  have hshown : (c.respell f).scriptPath ∘ f = c.scriptPath := funext hf.shown
  have hnodes : (g.respell f).nodes.map (c.respell f).scriptPath = g.nodes.map c.scriptPath := by
    show (g.nodes.map f).map _ = _
    rw [List.map_map, hshown]
  have hroots : (g.respell f).roots.map (c.respell f).scriptPath = g.roots.map c.scriptPath := by
    rw [roots_respell hf.key, List.map_map, hshown]
  have hcycles : (g.respell f).cycles.map (·.map (c.respell f).scriptPath)
      = g.cycles.map (·.map c.scriptPath) := by
    rw [cycles_respell hf.key, List.map_map]
    refine List.map_congr_left fun cycle _ => ?_
    show (cycle.map f).map _ = _
    rw [List.map_map, hshown]
  have hedges : ((g.respell f).edges.map fun e =>
        SnapshotEdge.mk ((c.respell f).scriptPath e.source)
          (e.target.map (c.respell f).scriptPath) e.rawPath e.kind e.unused)
      = g.edges.map fun e => ⟨c.scriptPath e.source, e.target.map c.scriptPath, e.rawPath, e.kind,
          e.unused⟩ := by
    show (g.edges.map (Edge.respell f)).map _ = _
    rw [List.map_map]
    refine List.map_congr_left fun e _ => ?_
    show SnapshotEdge.mk ((c.respell f).scriptPath (f e.source))
      ((e.target.map f).map (c.respell f).scriptPath) e.rawPath e.kind e.unused = _
    rw [Option.map_map, hshown]
    exact congrArg (SnapshotEdge.mk · _ _ _ _) (hf.shown e.source)
  rw [snapshot, hnodes, hroots, hcycles, hedges, snapshot]

end IncludeGraph

end ScriptAtlas
