import ScriptAtlas.Includes.Graph

/-! # Cycles — scripts that include themselves

    A depth-first search from every file, in path order, follows the edges to
    files in path order.  An edge back to a file on the way closes a cycle, and
    the first cycle of each part of the graph that hangs together is reported.

    `components` gives two nodes the same label when edges, taken in either
    direction, connect them. -/

namespace ScriptAtlas.IncludeGraph

/-- Gives the nodes labelled like `b` the label of `a`. -/
def joinLabels (labels : List Nat) (link : Nat × Nat) : List Nat :=
  match labels[link.1]?, labels[link.2]? with
  | some a, some b => labels.map fun l => if l == b then a else l
  | _, _ => labels

/-- A label for each of `count` nodes: the ends of a link have the same. -/
def components (count : Nat) (links : List (Nat × Nat)) : List Nat :=
  links.foldl joinLabels (List.range count)

/-- The label of a node. -/
def labelIn (labels : List Nat) (n : Nat) : Nat := labels[n]?.getD n

/-- What the search knows: the nodes visited, the components reported, and the cycles found, the
    latest first. -/
structure CycleSearch where
  visited : List Nat
  reported : List Nat
  cycles : List (List Nat)
deriving DecidableEq, Repr

/-- The way from the node `back` to the end, where the way is given from its end. -/
def cycleFrom (back : Nat) (way : List Nat) : List Nat :=
  way.reverse.dropWhile (· != back)

/-- Reports the cycle that an edge to `back` closes, unless its component has one. -/
def CycleSearch.report (label : Nat → Nat) (s : CycleSearch) (back : Nat) (way : List Nat) :
    CycleSearch :=
  if s.reported.contains (label back) then s
  else
    { s with
      reported := label back :: s.reported
      cycles := cycleFrom back way :: s.cycles }

/-- Turns to a node from the end of the way: one on the way closes a cycle, and a new one is
    visited. -/
def CycleSearch.turnTo (label : Nat → Nat)
    (visit : (way : List Nat) → Nat → CycleSearch → CycleSearch) (way : List Nat) (s : CycleSearch)
    (next : Nat) : CycleSearch :=
  if way.contains next then s.report label next way
  else if s.visited.contains next then s
  else visit way next { s with visited := next :: s.visited }

/-- Visits what can be reached from the node that the way leads to; the way has room for `room` more
    nodes. -/
def CycleSearch.visit (successors : Nat → List Nat) (label : Nat → Nat) :
    (room : Nat) → (way : List Nat) → Nat → CycleSearch → CycleSearch
  | 0, _, _, s => s
  | room + 1, way, node, s =>
    (successors node).foldl (turnTo label (visit successors label room) (node :: way)) s

/-- Searches from one start after the other. -/
def CycleSearch.ofStarts (successors : Nat → List Nat) (label : Nat → Nat) (room : Nat)
    (starts : List Nat) : CycleSearch :=
  starts.foldl (turnTo label (visit successors label room) []) ⟨[], [], []⟩

/-- The order of nodes by path. -/
def nodeOrder (g : IncludeGraph) : Nat → Nat → Ordering :=
  compareOn fun n => (g.nodes[n]?.map Path.key).getD []

/-- The nodes that links of a node lead to, each once and in path order. -/
def successors (g : IncludeGraph) (links : List (Nat × Nat)) (n : Nat) : List Nat :=
  sortBy g.nodeOrder (((links.filter (·.1 == n)).map (·.2)).eraseDups)

/-- The first cycle of each component, as nodes, in the order in which they are found. -/
def cycleNodes (g : IncludeGraph) : List (List Nat) :=
  let links := g.links
  let labels := components g.nodes.length links
  let starts := sortBy g.nodeOrder (List.range g.nodes.length)
  (CycleSearch.ofStarts (g.successors links) (labelIn labels) g.nodes.length starts).cycles.reverse

/-- The first cycle of each component. -/
def cycles (g : IncludeGraph) : List (List Path) := g.cycleNodes.map g.pathsOf

/-- The cycles that a file is a member of. -/
def cyclesThrough (g : IncludeGraph) (p : Path) : List (List Path) :=
  g.cycles.filter fun cycle => cycle.any (·.same p)

end ScriptAtlas.IncludeGraph
