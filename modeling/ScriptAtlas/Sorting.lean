/-! # Sorting — stable sorting by a comparison

    Insertion keeps the given order of elements that compare equal, which is
    what every list the library sorts relies on.  In a list that is already in
    order, the place where its smaller elements end is found by halving. -/

namespace ScriptAtlas

/-- Puts an element before the first one that is not smaller. -/
def insertBy {α : Type} (cmp : α → α → Ordering) (a : α) : List α → List α
  | [] => [a]
  | b :: bs => if (cmp a b).isLE then a :: b :: bs else b :: insertBy cmp a bs

/-- The list in the order of `cmp`; equal elements stay in the given order. -/
def sortBy {α : Type} (cmp : α → α → Ordering) (l : List α) : List α :=
  l.foldr (insertBy cmp) []

/-- The first of the elements whose key is least. -/
def leastBy {α κ : Type} [Ord κ] (key : α → κ) : List α → Option α
  | [] => none
  | a :: as =>
    match leastBy key as with
    | none => some a
    | some b => if (compare (key a) (key b)).isLE then some a else some b

/-- The elements whose key did not occur before. -/
def distinctBy {α κ : Type} [BEq κ] (key : α → κ) (l : List α) : List α :=
  go [] l
where
  /-- The elements whose key is neither in `seen` nor earlier in the list. -/
  go (seen : List κ) : List α → List α
    | [] => []
    | a :: as => if seen.contains (key a) then go seen as else a :: go (key a :: seen) as

/-- Where the elements that satisfy the test end, in a list in which they all come first: the part
    in which the place lies is halved until nothing is left of it. -/
def partitionPoint {α : Type} (p : α → Bool) (l : List α) : Nat :=
  go 0 l.length
where
  /-- The place, if it lies from `low` up to `high`. -/
  go (low high : Nat) : Nat :=
    if low < high then
      let middle := low + (high - low) / 2
      if l[middle]?.any p then go (middle + 1) high else go low middle
    else low
  termination_by high - low

end ScriptAtlas
