import ScriptAtlas.Includes.Closure
import Mathlib.Data.List.Nodup
import Mathlib.Data.List.Pairwise

/-! # Closure search — rounds are distances

    The search works on numbered nodes.  After `k` rounds it starts from the
    nodes at distance `k`, and it knows those at most so far away (`Reached`).
    The route:

    * what one round finds, said without the way it looks
      (`Round.ofNeighbours_finds`, and `Round.ofNeighbours_full` for the last one);
    * so one more round goes one step further (`Reached.next`);
    * hence, by induction on the rounds left, the nodes other than the start are
      listed by distance up to the last round (`Reached.lists`).

    The start is a case of its own: it is listed without a look at the distance,
    as soon as the search comes to it, and the last round may end before that
    (`Reached.start_mem_iff`). -/

namespace ScriptAtlas.IncludeGraph

/-! ## Walks -/

section

variable {α : Type}

/-- Whether that many steps lead from one place to another. -/
inductive Walk (step : α → α → Prop) (a : α) : Nat → α → Prop
  | stay : Walk step a 0 a
  | go {n : Nat} {b c : α} : Walk step a n b → step b c → Walk step a (n + 1) c

/-- Whether at most that many steps lead from one place to another. -/
def Within (step : α → α → Prop) (n : Nat) (a b : α) : Prop := ∃ m ≤ n, Walk step a m b

/-- Whether that many steps, and no fewer, lead from one place to another. -/
def IsDistance (step : α → α → Prop) (n : Nat) (a b : α) : Prop :=
  Walk step a n b ∧ ∀ m < n, ¬ Walk step a m b

/-- Whether a circuit of at most that many steps leads back to a place. -/
def ReturnsWithin (step : α → α → Prop) (n : Nat) (a : α) : Prop := ∃ m < n, Walk step a (m + 1) a

variable {step : α → α → Prop} {a b c : α} {m n : Nat}

theorem Within.mono (h : Within step m a b) (hmn : m ≤ n) : Within step n a b := by
  obtain ⟨k, hk, hwalk⟩ := h
  exact ⟨k, Nat.le_trans hk hmn, hwalk⟩

theorem Within.go (h : Within step n a b) (hstep : step b c) : Within step (n + 1) a c := by
  obtain ⟨k, hk, hwalk⟩ := h
  exact ⟨k + 1, Nat.succ_le_succ hk, hwalk.go hstep⟩

theorem within_zero_iff : Within step 0 a b ↔ b = a := by
  constructor
  · rintro ⟨m, hm, hwalk⟩
    obtain rfl := Nat.le_zero.mp hm
    cases hwalk
    rfl
  · rintro rfl
    exact ⟨0, Nat.le_refl 0, .stay⟩

/-- A place at a distance is not nearer. -/
theorem IsDistance.not_within (h : IsDistance step n a b) (hmn : m < n) : ¬ Within step m a b := by
  rintro ⟨k, hk, hwalk⟩
  exact h.2 k (Nat.lt_of_le_of_lt hk hmn) hwalk

theorem isDistance_zero_iff : IsDistance step 0 a b ↔ b = a := by
  constructor
  · intro h
    exact within_zero_iff.mp ⟨0, Nat.le_refl 0, h.1⟩
  · rintro rfl
    exact ⟨.stay, fun k hk => absurd hk (Nat.not_lt_zero k)⟩

/-- The places at the next distance are a step away from those at this one, and not nearer. -/
theorem isDistance_succ_iff : IsDistance step (n + 1) a c
    ↔ (∃ b, IsDistance step n a b ∧ step b c) ∧ ¬ Within step n a c := by
  constructor
  · intro h
    refine ⟨?_, h.not_within (Nat.lt_succ_self n)⟩
    obtain ⟨hwalk, hleast⟩ := h
    cases hwalk with
    | @go _ b _ hwalk hstep =>
        refine ⟨b, ⟨hwalk, ?_⟩, hstep⟩
        intro m hm hshort
        exact hleast (m + 1) (Nat.succ_lt_succ hm) (hshort.go hstep)
  · rintro ⟨⟨b, hb, hstep⟩, hfar⟩
    refine ⟨hb.1.go hstep, ?_⟩
    intro m hm hwalk
    exact hfar ⟨m, Nat.le_of_lt_succ hm, hwalk⟩

theorem within_succ_iff :
    Within step (n + 1) a b ↔ Within step n a b ∨ IsDistance step (n + 1) a b := by
  constructor
  · rintro ⟨m, hm, hwalk⟩
    by_cases hnear : Within step n a b
    · exact Or.inl hnear
    · refine Or.inr ⟨?_, fun k hk hshort => hnear ⟨k, Nat.le_of_lt_succ hk, hshort⟩⟩
      rcases Nat.lt_or_eq_of_le hm with hlt | rfl
      · exact absurd ⟨m, Nat.le_of_lt_succ hlt, hwalk⟩ hnear
      · exact hwalk
  · rintro (hnear | hfar)
    · exact hnear.mono (Nat.le_succ n)
    · exact ⟨n + 1, Nat.le_refl _, hfar.1⟩

/-- A place within reach has a distance. -/
theorem within_iff_exists_isDistance : Within step n a b ↔ ∃ m ≤ n, IsDistance step m a b := by
  constructor
  · intro h
    induction n with
    | zero => exact ⟨0, Nat.le_refl 0, isDistance_zero_iff.mpr (within_zero_iff.mp h)⟩
    | succ n ih =>
        rcases within_succ_iff.mp h with hnear | hfar
        · obtain ⟨m, hm, hdistance⟩ := ih hnear
          exact ⟨m, Nat.le_succ_of_le hm, hdistance⟩
        · exact ⟨n + 1, Nat.le_refl _, hfar⟩
  · rintro ⟨m, hm, hdistance⟩
    exact ⟨m, hm, hdistance.1⟩

/-- A walk with one more step in front. -/
theorem Walk.cons (hstep : step a b) (h : Walk step b n c) : Walk step a (n + 1) c := by
  induction h with
  | stay => exact Walk.stay.go hstep
  | go _ hlast ih => exact ih.go hlast

theorem Walk.eq_or_exists_step (h : Walk step a n b) : b = a ∨ ∃ c, step a c := by
  induction h with
  | stay => exact Or.inl rfl
  | @go n b c _ hlast ih =>
      rcases ih with rfl | hfirst
      · exact Or.inr ⟨c, hlast⟩
      · exact Or.inr hfirst

theorem Walk.flip (h : Walk step a n b) : Walk (flip step) b n a := by
  induction h with
  | stay => exact .stay
  | go _ hlast ih => exact ih.cons hlast

theorem within_flip_iff : Within (flip step) n b a ↔ Within step n a b := by
  constructor
  · rintro ⟨m, hm, hwalk⟩
    exact ⟨m, hm, hwalk.flip⟩
  · rintro ⟨m, hm, hwalk⟩
    exact ⟨m, hm, hwalk.flip⟩

/-! ## Coming to something in a list -/

/-- Whether a list comes to something wanted before it leaves what is allowed. -/
def ComesTo (wanted allowed : α → Prop) (l : List α) : Prop :=
  ∃ before x after, l = before ++ x :: after ∧ wanted x ∧ ∀ y ∈ before, allowed y

variable {wanted allowed : α → Prop} {l₁ l₂ : List α}

theorem not_comesTo_nil : ¬ ComesTo wanted allowed ([] : List α) := by
  rintro ⟨before, x, after, hl, -⟩
  exact absurd hl (by simp)

theorem comesTo_cons_iff {x : α} {l : List α} :
    ComesTo wanted allowed (x :: l) ↔ wanted x ∨ (allowed x ∧ ComesTo wanted allowed l) := by
  constructor
  · rintro ⟨before, y, after, hl, hy, hbefore⟩
    cases before with
    | nil =>
        obtain ⟨rfl, -⟩ := List.cons.inj hl
        exact Or.inl hy
    | cons z before =>
        obtain ⟨rfl, rfl⟩ := List.cons.inj hl
        obtain ⟨hz, hbefore⟩ := List.forall_mem_cons.mp hbefore
        exact Or.inr ⟨hz, before, y, after, rfl, hy, hbefore⟩
  · rintro (hx | ⟨hx, before, y, after, rfl, hy, hbefore⟩)
    · exact ⟨[], x, l, rfl, hx, fun y hy => absurd hy List.not_mem_nil⟩
    · exact ⟨x :: before, y, after, rfl, hy, List.forall_mem_cons.mpr ⟨hx, hbefore⟩⟩

/-- A part that is all allowed holds something wanted, or the rest comes to it. -/
theorem comesTo_append_iff (h : ∀ x ∈ l₁, allowed x) :
    ComesTo wanted allowed (l₁ ++ l₂) ↔ (∃ x ∈ l₁, wanted x) ∨ ComesTo wanted allowed l₂ := by
  induction l₁ with
  | nil => simp
  | cons x l₁ ih =>
      obtain ⟨hx, h⟩ := List.forall_mem_cons.mp h
      rw [List.cons_append, comesTo_cons_iff, ih h, List.exists_mem_cons_iff]
      simp only [hx, true_and, or_assoc]

/-- A list comes to something when its images do. -/
theorem comesTo_map_iff {β : Type} {f : β → α} {wanted' allowed' : β → Prop} {l : List β}
    (hwanted : ∀ x ∈ l, wanted (f x) ↔ wanted' x) (hallowed : ∀ x ∈ l, allowed (f x) ↔ allowed' x) :
    ComesTo wanted allowed (l.map f) ↔ ComesTo wanted' allowed' l := by
  induction l with
  | nil => simp [not_comesTo_nil]
  | cons x l ih =>
      obtain ⟨hwx, hwanted⟩ := List.forall_mem_cons.mp hwanted
      obtain ⟨hax, hallowed⟩ := List.forall_mem_cons.mp hallowed
      rw [List.map_cons, comesTo_cons_iff, comesTo_cons_iff, hwx, hax, ih hwanted hallowed]

end

/-! ## One round -/

namespace Round

/-- What a round with room finds among the neighbours that it goes through. -/
structure Finds (start : Nat) (seen : List Nat) (returned : Bool) (ns : List Nat) (r : Round) :
    Prop where
  /-- The next round starts from the neighbours that are new, -/
  mem_next : ∀ x, x ∈ r.next ↔ x ∈ ns ∧ x ∉ seen
  /-- each taken once. -/
  nodup : r.next.Nodup
  /-- All neighbours are known afterwards. -/
  mem_seen : ∀ x, x ∈ r.seen ↔ x ∈ seen ∨ x ∈ ns
  /-- Apart from the start, what is new is listed. -/
  others : r.listed.filter (· != start) = r.next
  /-- The start is listed when it is a neighbour for the first time. -/
  start_mem : start ∈ r.listed ↔ returned = false ∧ start ∈ ns
  returned_iff : r.returned = false ↔ returned = false ∧ start ∉ ns

variable {start n : Nat} {returned : Bool} {seen ns : List Nat} {r : Round}

/-- A neighbour that is known changes nothing, but it may be the start. -/
theorem Finds.known (h : Finds start seen (returned || n == start) ns r) (hn : n ∈ seen) :
    Finds start seen returned (n :: ns)
      { r with listed := (if n == start && !returned then [n] else []) ++ r.listed } := by
  obtain ⟨hnext, hnodup, hseen, hothers, hstart, hreturned⟩ := h
  refine ⟨?_, hnodup, ?_, ?_, ?_, ?_⟩
  · intro x
    rw [hnext, List.mem_cons]
    constructor
    · rintro ⟨hx, hnew⟩
      exact ⟨Or.inr hx, hnew⟩
    · rintro ⟨rfl | hx, hnew⟩
      · exact absurd hn hnew
      · exact ⟨hx, hnew⟩
  · intro x
    rw [hseen, List.mem_cons]
    constructor
    · rintro (hx | hx)
      · exact Or.inl hx
      · exact Or.inr (Or.inr hx)
    · rintro (hx | rfl | hx)
      · exact Or.inl hx
      · exact Or.inl hn
      · exact Or.inr hx
  · rw [List.filter_append, hothers]
    by_cases hback : n = start <;> cases returned <;> simp [hback]
  · rw [List.mem_append, hstart]
    by_cases hback : n = start <;> cases returned <;> simp [hback, Ne.symm]
  · rw [hreturned]
    by_cases hback : n = start <;> cases returned <;> simp [hback, Ne.symm]

/-- A new neighbour is listed and known from then on. -/
theorem Finds.new (h : Finds start (n :: seen) returned ns r) (hn : n ∉ seen) (hne : n ≠ start) :
    Finds start seen returned (n :: ns) { r with listed := n :: r.listed, next := n :: r.next } := by
  obtain ⟨hnext, hnodup, hseen, hothers, hstart, hreturned⟩ := h
  refine ⟨?_, ?_, ?_, ?_, ?_, ?_⟩
  · intro x
    rw [List.mem_cons, hnext, List.mem_cons, List.mem_cons]
    by_cases hx : x = n
    · simp [hx, hn]
    · simp [hx]
  · refine List.nodup_cons.mpr ⟨fun hmem => ?_, hnodup⟩
    exact ((hnext n).mp hmem).2 List.mem_cons_self
  · intro x
    rw [hseen, List.mem_cons, List.mem_cons, or_assoc, or_left_comm]
  · rw [List.filter_cons_of_pos (by simp [hne]), hothers]
  · rw [List.mem_cons, List.mem_cons, hstart]
    simp [hne.symm]
  · rw [hreturned, List.mem_cons]
    simp [hne.symm]

theorem ofNeighbours_finds (hstart : start ∈ seen) :
    Finds start seen returned ns (ofNeighbours start true seen returned ns) := by
  induction ns generalizing seen returned with
  | nil => constructor <;> simp [ofNeighbours]
  | cons n ns ih =>
      rw [ofNeighbours]
      by_cases hn : n ∈ seen
      · rw [if_pos (List.contains_iff_mem.mpr hn)]
        exact (ih hstart).known hn
      · have hne : n ≠ start := fun h => hn (h ▸ hstart)
        have hback : (n == start) = false := beq_eq_false_iff_ne.mpr hne
        rw [if_neg (mt List.contains_iff_mem.mp hn), hback, Bool.or_false]
        exact (ih (List.mem_cons_of_mem n hstart)).new hn hne

/-- Without room for new nodes, a round lists at most the start, and this only if the neighbours
    come to it before they come to a new node. -/
theorem ofNeighbours_full (returned : Bool) (ns : List Nat) (hstart : start ∈ seen) :
    (ofNeighbours start false seen returned ns).listed.filter (· != start) = []
      ∧ (start ∈ (ofNeighbours start false seen returned ns).listed
        ↔ returned = false ∧ ComesTo (· = start) (· ∈ seen) ns) := by
  induction ns generalizing returned with
  | nil => simp [ofNeighbours, not_comesTo_nil]
  | cons n ns ih =>
      rw [ofNeighbours, comesTo_cons_iff]
      by_cases hn : n ∈ seen
      · obtain ⟨hothers, hmem⟩ := ih (returned || n == start)
        rw [if_pos (List.contains_iff_mem.mpr hn)]
        constructor
        · rw [List.filter_append, hothers]
          by_cases hback : n = start <;> simp [hback]
        · rw [List.mem_append, hmem]
          by_cases hback : n = start <;> cases returned <;> simp [hback, hn, hstart, Ne.symm]
      · have hne : n ≠ start := fun h => hn (h ▸ hstart)
        rw [if_neg (mt List.contains_iff_mem.mp hn)]
        simp [hn, hne]

end Round

/-! ## All rounds -/

section

variable {neighbours : Nat → List Nat} {start : Nat}

theorem rounds_nil (left : Nat) (seen : List Nat) (returned : Bool) :
    rounds neighbours start left [] seen returned = [] := by
  cases left with
  | zero => rfl
  | succ left => rfl

/-- A round that finds nothing new is followed by rounds that list nothing. -/
theorem rounds_succ (left : Nat) (frontier seen : List Nat) (returned : Bool) :
    let round := Round.ofNeighbours start true seen returned (frontier.flatMap neighbours)
    rounds neighbours start (left + 1) frontier seen returned
      = round.listed ++ rounds neighbours start left round.next round.seen round.returned := by
  intro round
  rw [rounds]
  by_cases hnext : round.next.isEmpty
  · rw [if_pos hnext, List.isEmpty_iff.mp hnext, rounds_nil, List.append_nil]
  · rw [if_neg hnext]

/-- A list of the nodes between two distances, each once and the nearer ones first. -/
structure ListsBetween (step : Nat → Nat → Prop) (start low high : Nat) (l : List Nat) : Prop where
  mem_iff : ∀ x, x ∈ l ↔ ∃ n, low < n ∧ n ≤ high ∧ IsDistance step n start x
  nodup : l.Nodup
  ordered : l.Pairwise fun x y =>
    ∃ m n, m ≤ n ∧ IsDistance step m start x ∧ IsDistance step n start y

section

variable {step : Nat → Nat → Prop} {low high : Nat} {l₁ l₂ : List Nat}

theorem ListsBetween.nil : ListsBetween step start low low [] := by
  refine ⟨?_, List.nodup_nil, List.Pairwise.nil⟩
  intro x
  constructor
  · intro hx
    exact absurd hx List.not_mem_nil
  · rintro ⟨n, hlow, hhigh, -⟩
    omega

/-- The nodes at the next distance go before those further away. -/
theorem ListsBetween.append (h : ListsBetween step start (low + 1) high l₂)
    (hmem : ∀ x, x ∈ l₁ ↔ IsDistance step (low + 1) start x) (hnodup : l₁.Nodup)
    (hhigh : low + 1 ≤ high) : ListsBetween step start low high (l₁ ++ l₂) := by
  refine ⟨?_, ?_, ?_⟩
  · intro x
    rw [List.mem_append, hmem, h.mem_iff]
    constructor
    · rintro (hx | ⟨n, hn, hle, hx⟩)
      · exact ⟨low + 1, Nat.lt_succ_self low, hhigh, hx⟩
      · exact ⟨n, Nat.lt_of_succ_lt hn, hle, hx⟩
    · rintro ⟨n, hn, hle, hx⟩
      rcases Nat.lt_or_eq_of_le (Nat.succ_le_of_lt hn) with hlt | rfl
      · exact Or.inr ⟨n, hlt, hle, hx⟩
      · exact Or.inl hx
  · refine List.nodup_append.mpr ⟨hnodup, h.nodup, ?_⟩
    rintro x hx _ hy rfl
    obtain ⟨n, hn, -, hfar⟩ := (h.mem_iff x).mp hy
    exact hfar.2 (low + 1) hn ((hmem x).mp hx).1
  · refine List.pairwise_append.mpr ⟨?_, h.ordered, ?_⟩
    · refine hnodup.imp_of_mem ?_
      intro x y hx hy _
      exact ⟨low + 1, low + 1, Nat.le_refl _, (hmem x).mp hx, (hmem y).mp hy⟩
    · intro x hx y hy
      obtain ⟨n, hn, -, hfar⟩ := (h.mem_iff y).mp hy
      exact ⟨low + 1, n, Nat.le_of_lt hn, (hmem x).mp hx, hfar⟩

end

/-- After `k` rounds: the nodes that the next round starts from, and those known. -/
structure Reached (neighbours : Nat → List Nat) (start k : Nat) (frontier seen : List Nat) :
    Prop where
  mem_frontier : ∀ x, x ∈ frontier ↔ IsDistance (fun a b => b ∈ neighbours a) k start x
  nodup : frontier.Nodup
  mem_seen : ∀ x, x ∈ seen ↔ Within (fun a b => b ∈ neighbours a) k start x

namespace Reached

variable {k : Nat} {frontier seen : List Nat}

theorem initial (neighbours : Nat → List Nat) (start : Nat) :
    Reached neighbours start 0 [start] [start] := by
  refine ⟨?_, List.nodup_singleton start, ?_⟩
  · intro x
    rw [List.mem_singleton, isDistance_zero_iff]
  · intro x
    rw [List.mem_singleton, within_zero_iff]

theorem start_mem (h : Reached neighbours start k frontier seen) : start ∈ seen :=
  (h.mem_seen start).mpr ⟨0, Nat.zero_le k, .stay⟩

/-- The neighbours that a round looks at are at most one step further. -/
theorem within_of_mem_flatMap (h : Reached neighbours start k frontier seen) {x : Nat}
    (hx : x ∈ frontier.flatMap neighbours) :
    Within (fun a b => b ∈ neighbours a) (k + 1) start x := by
  obtain ⟨y, hy, hyx⟩ := List.mem_flatMap.mp hx
  exact ⟨k + 1, Nat.le_refl _, ((h.mem_frontier y).mp hy).1.go hyx⟩

/-- One more round goes one step further. -/
theorem next (h : Reached neighbours start k frontier seen) {returned : Bool} {r : Round}
    (hr : r.Finds start seen returned (frontier.flatMap neighbours)) :
    Reached neighbours start (k + 1) r.next r.seen := by
  have hnew (x : Nat) : x ∈ frontier.flatMap neighbours ∧ x ∉ seen
      ↔ IsDistance (fun a b => b ∈ neighbours a) (k + 1) start x := by
    rw [isDistance_succ_iff, h.mem_seen, List.mem_flatMap]
    simp only [h.mem_frontier]
  refine ⟨fun x => (hr.mem_next x).trans (hnew x), hr.nodup, ?_⟩
  intro x
  rw [hr.mem_seen, within_succ_iff, ← hnew, h.mem_seen]
  by_cases hx : Within (fun a b => b ∈ neighbours a) k start x
  · simp [hx]
  · simp [hx]

/-- Apart from the start, the rounds left list the nodes at the distances left. -/
theorem lists (h : Reached neighbours start k frontier seen) (left : Nat) (returned : Bool) :
    ListsBetween (fun a b => b ∈ neighbours a) start k (k + left)
      ((rounds neighbours start left frontier seen returned).filter (· != start)) := by
  induction left generalizing k frontier seen returned with
  | zero =>
      rw [rounds, (Round.ofNeighbours_full _ _ h.start_mem).1]
      exact .nil
  | succ left ih =>
      have hround : Round.Finds start seen returned (frontier.flatMap neighbours) _ :=
        Round.ofNeighbours_finds h.start_mem
      have hnext := h.next hround
      rw [rounds_succ, List.filter_append, hround.others, Nat.add_left_comm, Nat.add_comm left]
      exact (ih hnext _).append hnext.mem_frontier hnext.nodup (Nat.le_add_right _ _)

/-- The start is listed once the neighbours of the nodes listed, in order, come to it before they
    come to a node that is too far away. -/
theorem start_mem_iff (h : Reached neighbours start k frontier seen) (left : Nat)
    (returned : Bool) :
    start ∈ rounds neighbours start left frontier seen returned ↔ returned = false
      ∧ ComesTo (· = start) (Within (fun a b => b ∈ neighbours a) (k + left) start)
        ((frontier ++ (rounds neighbours start left frontier seen returned).filter
          (· != start)).flatMap neighbours) := by
  induction left generalizing k frontier seen returned with
  | zero =>
      obtain ⟨hothers, hmem⟩ := Round.ofNeighbours_full returned (frontier.flatMap neighbours)
        h.start_mem
      have hseen : (· ∈ seen) = Within (fun a b => b ∈ neighbours a) k start :=
        funext fun x => propext (h.mem_seen x)
      rw [rounds, hothers, hmem, List.append_nil, hseen, Nat.add_zero]
  | succ left ih =>
      have hround : Round.Finds start seen returned (frontier.flatMap neighbours) _ :=
        Round.ofNeighbours_finds h.start_mem
      have hnear : ∀ x ∈ frontier.flatMap neighbours,
          Within (fun a b => b ∈ neighbours a) (k + (left + 1)) start x := by
        intro x hx
        exact (h.within_of_mem_flatMap hx).mono (by omega)
      rw [rounds_succ, List.filter_append, hround.others, List.flatMap_append,
        comesTo_append_iff hnear, List.mem_append, hround.start_mem, ih (h.next hround),
        hround.returned_iff, Nat.add_assoc, Nat.add_comm 1, exists_eq_right, and_assoc,
        ← and_or_left]
      -- the start is a neighbour now, or later
      by_cases hback : start ∈ frontier.flatMap neighbours
      · simp only [hback, true_or]
      · simp only [hback, not_false_eq_true, true_and, false_or]

end Reached

/-- A node other than the start is listed when it is within the depth. -/
theorem mem_rounds_iff {depth x : Nat} (hne : x ≠ start) :
    x ∈ rounds neighbours start depth [start] [start] false
      ↔ Within (fun a b => b ∈ neighbours a) depth start x := by
  have hlisted := ((Reached.initial neighbours start).lists depth false).mem_iff x
  rw [List.mem_filter, bne_iff_ne, and_iff_left hne, Nat.zero_add] at hlisted
  rw [hlisted, within_iff_exists_isDistance]
  constructor
  · rintro ⟨n, -, hn, hdistance⟩
    exact ⟨n, hn, hdistance⟩
  · rintro ⟨n, hn, hdistance⟩
    refine ⟨n, Nat.pos_of_ne_zero ?_, hn, hdistance⟩
    rintro rfl
    exact hne (isDistance_zero_iff.mp hdistance)

/-- What is listed is not nearer than what is listed before it, or than the start. -/
theorem pairwise_within (neighbours : Nat → List Nat) (start depth : Nat) :
    (start :: (rounds neighbours start depth [start] [start] false).filter (· != start)).Pairwise
      fun x y => ∀ n, Within (fun a b => b ∈ neighbours a) n start y →
        Within (fun a b => b ∈ neighbours a) n start x := by
  refine List.pairwise_cons.mpr ⟨?_, ?_⟩
  · intro y _ n _
    exact ⟨0, Nat.zero_le n, .stay⟩
  · refine ((Reached.initial neighbours start).lists depth false).ordered.imp ?_
    rintro x y ⟨k, l, hkl, hx, hy⟩ n hn
    refine ⟨k, ?_, hx.1⟩
    by_contra hfar
    exact hy.not_within (by omega) hn

/-- A node within the depth is the start, or is listed. -/
theorem mem_of_within {depth x : Nat} (h : Within (fun a b => b ∈ neighbours a) depth start x) :
    x ∈ start :: (rounds neighbours start depth [start] [start] false).filter (· != start) := by
  by_cases hne : x = start
  · exact hne ▸ List.mem_cons_self
  · exact List.mem_cons_of_mem _ (List.mem_filter.mpr ⟨(mem_rounds_iff hne).mpr h,
      bne_iff_ne.mpr hne⟩)

/-- The start is listed when a circuit within the depth leads back to it. -/
theorem start_mem_of_returnsWithin {depth : Nat}
    (h : ReturnsWithin (fun a b => b ∈ neighbours a) depth start) :
    start ∈ rounds neighbours start depth [start] [start] false := by
  obtain ⟨n, hn, hcircuit⟩ := h
  cases hcircuit with
  | @go _ y _ hwalk hlast =>
      have hnear : Within (fun a b => b ∈ neighbours a) n start y := ⟨n, Nat.le_refl n, hwalk⟩
      obtain ⟨earlier, later, hsplit⟩ :=
        List.append_of_mem (mem_of_within (hnear.mono (Nat.le_of_lt hn)))
      have hordered := pairwise_within neighbours start depth
      rw [hsplit, List.pairwise_append] at hordered
      -- up to `y` all neighbours are within the depth, and the start is one of them
      have hallowed : ∀ x ∈ (earlier ++ [y]).flatMap neighbours,
          Within (fun a b => b ∈ neighbours a) depth start x := by
        intro x hx
        obtain ⟨z, hz, hzx⟩ := List.mem_flatMap.mp hx
        have hzn : Within (fun a b => b ∈ neighbours a) n start z := by
          rcases List.mem_append.mp hz with hz | hz
          · exact hordered.2.2 z hz y List.mem_cons_self n hnear
          · exact List.mem_singleton.mp hz ▸ hnear
        exact (hzn.go hzx).mono hn
      rw [((Reached.initial neighbours start).start_mem_iff depth false), Nat.zero_add]
      refine ⟨rfl, ?_⟩
      rw [List.singleton_append, hsplit, List.append_cons, List.flatMap_append,
        comesTo_append_iff hallowed]
      exact Or.inl ⟨start, List.mem_flatMap.mpr ⟨y, List.mem_concat_self, hlast⟩, rfl⟩

/-- The start is listed only when a circuit of at most one step more leads back to it. -/
theorem returnsWithin_of_start_mem {depth : Nat}
    (h : start ∈ rounds neighbours start depth [start] [start] false) :
    ReturnsWithin (fun a b => b ∈ neighbours a) (depth + 1) start := by
  rw [(Reached.initial neighbours start).start_mem_iff depth false] at h
  obtain ⟨-, before, x, after, hlist, rfl, -⟩ := h
  have hx : x ∈ before ++ x :: after := List.mem_append_right before List.mem_cons_self
  rw [← hlist, List.singleton_append] at hx
  obtain ⟨y, hy, hyx⟩ := List.mem_flatMap.mp hx
  rcases List.mem_cons.mp hy with rfl | hy
  · exact ⟨0, Nat.succ_pos depth, Walk.stay.go hyx⟩
  · obtain ⟨hy, hne⟩ := List.mem_filter.mp hy
    obtain ⟨n, hn, hwalk⟩ := (mem_rounds_iff (bne_iff_ne.mp hne)).mp hy
    exact ⟨n, Nat.lt_succ_of_le hn, hwalk.go hyx⟩

end

end ScriptAtlas.IncludeGraph
