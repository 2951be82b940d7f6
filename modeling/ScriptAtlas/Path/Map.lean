import ScriptAtlas.Path.Basic

/-! # Path maps — what is known by path

    A map lists its entries in path order, one for each path however it is
    spelled.  The first spelling stays when an entry is replaced. -/

namespace ScriptAtlas

/-- Entries by path, in path order. -/
abbrev PathMap (α : Type) := List (Path × α)

namespace PathMap

variable {α : Type}

/-- The paths that have an entry, in order. -/
def keys (m : PathMap α) : List Path := m.map (·.1)

/-- The entry at a path. -/
def get? (m : PathMap α) (p : Path) : Option α := (m.find? (·.1.same p)).map (·.2)

/-- Puts an entry at a path.  One that is there already gives way but keeps its spelling. -/
def put (p : Path) (a : α) : PathMap α → PathMap α
  | [] => [(p, a)]
  | (q, b) :: m =>
    match p.order q with
    | .lt => (p, a) :: (q, b) :: m
    | .eq => (q, a) :: m
    | .gt => (q, b) :: put p a m

/-- Takes the entry at a path away. -/
def erase (m : PathMap α) (p : Path) : PathMap α := m.filter (!·.1.same p)

end PathMap

end ScriptAtlas
