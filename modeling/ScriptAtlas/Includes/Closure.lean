import ScriptAtlas.Includes.Graph

/-! # Closures — what a script depends on, and what depends on it

    A closure is searched round by round: each round looks at the neighbours of
    the files that the round before has found.  The file that the search starts
    from is listed when an edge leads back to it.  After the last round allowed,
    the search ends at the first neighbour that would be new. -/

namespace ScriptAtlas.IncludeGraph

/-- What one round finds. -/
structure Round where
  /-- The files listed, in order. -/
  listed : List Nat
  /-- The files that the next round starts from. -/
  next : List Nat
  /-- The files known after the round. -/
  seen : List Nat
  /-- Whether the start has been listed. -/
  returned : Bool
deriving DecidableEq, Repr

/-- Goes through the neighbours of a round.  Without `room` for new files, the first one ends it. -/
def Round.ofNeighbours (start : Nat) (room : Bool) (seen : List Nat) (returned : Bool) :
    List Nat → Round
  | [] => ⟨[], [], seen, returned⟩
  | n :: ns =>
    let back := if n == start && !returned then [n] else []
    let returned' := returned || n == start
    if seen.contains n then
      let rest := ofNeighbours start room seen returned' ns
      { rest with listed := back ++ rest.listed }
    else if room then
      let rest := ofNeighbours start room (n :: seen) returned' ns
      { rest with listed := back ++ n :: rest.listed, next := n :: rest.next }
    else ⟨back, [], seen, returned'⟩

/-- The files found in the rounds that are left. -/
def rounds (neighbours : Nat → List Nat) (start : Nat) :
    (left : Nat) → (frontier seen : List Nat) → (returned : Bool) → List Nat
  | 0, frontier, seen, returned =>
    (Round.ofNeighbours start false seen returned (frontier.flatMap neighbours)).listed
  | left + 1, frontier, seen, returned =>
    let round := Round.ofNeighbours start true seen returned (frontier.flatMap neighbours)
    if round.next.isEmpty then round.listed
    else round.listed ++ rounds neighbours start left round.next round.seen round.returned

/-- The closure of a file under `neighbours`, with at most `depth` steps. -/
def closure (g : IncludeGraph) (neighbours : Nat → List Nat) (p : Path) (depth : Nat) : List Path :=
  match g.indexOf? p with
  | none => []
  | some start => g.pathsOf (rounds neighbours start depth [start] [start] false)

/-- The nodes that edges of a node lead to, once for each edge and by number. -/
def targetsOf (links : List (Nat × Nat)) (n : Nat) : List Nat :=
  sortBy compare ((links.filter (·.1 == n)).map (·.2))

/-- The nodes whose edges lead to a node, once for each edge and by number. -/
def sourcesOf (links : List (Nat × Nat)) (n : Nat) : List Nat :=
  sortBy compare ((links.filter (·.2 == n)).map (·.1))

/-- The files that a file includes, directly or through at most `depth` includes. -/
def dependencies (g : IncludeGraph) (p : Path) (depth : Nat) : List Path :=
  g.closure (targetsOf g.links) p (min depth depthLimit)

/-- The files that include a file, directly or through others. -/
def dependents (g : IncludeGraph) (p : Path) : List Path :=
  g.closure (sourcesOf g.links) p g.maxDepth

end ScriptAtlas.IncludeGraph
