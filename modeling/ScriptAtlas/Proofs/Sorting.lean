import ScriptAtlas.Sorting
import ScriptAtlas.Span

/-! # Sorting — what sorting and removing duplicates keep

    Sorting keeps the elements and puts them in order.  Of the elements with a
    least key, `leastBy` picks the first.  Of the elements with one key,
    `distinctBy` keeps exactly one.  Where the elements that satisfy a test come
    first, `partitionPoint` is their number. -/

namespace ScriptAtlas

variable {α β κ : Type}

theorem insertBy_perm (cmp : α → α → Ordering) (a : α) (l : List α) :
    (insertBy cmp a l).Perm (a :: l) := by
  induction l with
  | nil => exact .refl _
  | cons b l ih =>
      rw [insertBy]
      split
      · exact .refl _
      · exact (ih.cons b).trans (.swap a b l)

theorem sortBy_perm (cmp : α → α → Ordering) (l : List α) : (sortBy cmp l).Perm l := by
  induction l with
  | nil => exact .refl _
  | cons a l ih => exact (insertBy_perm cmp a (sortBy cmp l)).trans (ih.cons a)

theorem mem_sortBy (cmp : α → α → Ordering) (b : α) (l : List α) :
    b ∈ sortBy cmp l ↔ b ∈ l :=
  (sortBy_perm cmp l).mem_iff

/-! ## Order

    With a transitive comparison sorting puts a list in order, and it is stable:
    elements can be left out, or changed in what is not compared, before or
    after. -/

section Order

variable {cmp : α → α → Ordering} {a : α} {l : List α}

/-- A comparison by something that elements have. -/
theorem transCmp_on (cmp : β → β → Ordering) [Std.TransCmp cmp] (f : α → β) :
    Std.TransCmp fun a b => cmp (f a) (f b) where
  eq_swap := Std.OrientedCmp.eq_swap
  isLE_trans := Std.TransCmp.isLE_trans

theorem Position.le_iff {p q : Position} :
    p.le q = true ↔ p.line < q.line ∨ p.line = q.line ∧ p.column ≤ q.column := by
  simp [Position.le]

instance : Std.TransCmp Position.order :=
  inferInstanceAs (Std.TransCmp (compareLex (compareOn Position.line) (compareOn Position.column)))

/-- A place on an earlier line is smaller. -/
theorem Position.order_of_line_lt {p q : Position} (h : p.line < q.line) : p.order q = .lt := by
  have hlines : compareOn Position.line p q = .lt := Nat.compare_eq_lt.mpr h
  rw [Position.order, compareLex, hlines]
  rfl

/-- On one line, a place further to the left is smaller. -/
theorem Position.order_of_column_lt {p q : Position} (hline : p.line = q.line)
    (h : p.column < q.column) : p.order q = .lt := by
  have hlines : compareOn Position.line p q = .eq := Nat.compare_eq_eq.mpr hline
  have hcolumns : compareOn Position.column p q = .lt := Nat.compare_eq_lt.mpr h
  rw [Position.order, compareLex, hlines, hcolumns]
  rfl

/-- An element that is not greater than any other goes to the front. -/
theorem insertBy_of_forall_isLE (h : ∀ b ∈ l, (cmp a b).isLE = true) :
    insertBy cmp a l = a :: l := by
  cases l with
  | nil => rfl
  | cons b l => rw [insertBy, if_pos (h b List.mem_cons_self)]

/-- Sorting leaves a list alone that is in order. -/
theorem sortBy_of_pairwise (h : l.Pairwise fun a b => (cmp a b).isLE = true) :
    sortBy cmp l = l := by
  induction l with
  | nil => rfl
  | cons a l ih =>
      obtain ⟨ha, hl⟩ := List.pairwise_cons.mp h
      show insertBy cmp a (sortBy cmp l) = a :: l
      rw [ih hl]
      exact insertBy_of_forall_isLE ha

/-- What does not change the comparison can be done before or after sorting. -/
theorem sortBy_map {cmp' : β → β → Ordering} (f : α → β)
    (h : ∀ a b, cmp' (f a) (f b) = cmp a b) (l : List α) :
    sortBy cmp' (l.map f) = (sortBy cmp l).map f := by
  have hinsert (a : α) (l : List α) :
      insertBy cmp' (f a) (l.map f) = (insertBy cmp a l).map f := by
    induction l with
    | nil => rfl
    | cons b l ih =>
        rw [List.map_cons, insertBy, insertBy, h]
        by_cases hab : (cmp a b).isLE = true
        · rw [if_pos hab, if_pos hab]
          rfl
        · rw [if_neg hab, if_neg hab, ih]
          rfl
  induction l with
  | nil => rfl
  | cons a l ih =>
      show insertBy cmp' (f a) (sortBy cmp' (l.map f)) = _
      rw [ih]
      exact hinsert a (sortBy cmp l)

variable [Std.TransCmp cmp]

theorem insertBy_pairwise (h : l.Pairwise fun a b => (cmp a b).isLE = true) (a : α) :
    (insertBy cmp a l).Pairwise fun a b => (cmp a b).isLE = true := by
  induction l with
  | nil => exact List.pairwise_singleton _ _
  | cons b l ih =>
      obtain ⟨hb, hl⟩ := List.pairwise_cons.mp h
      rw [insertBy]
      by_cases hab : (cmp a b).isLE = true
      · rw [if_pos hab]
        refine List.pairwise_cons.mpr ⟨?_, h⟩
        intro c hc
        rcases List.mem_cons.mp hc with rfl | hc
        · exact hab
        · exact Std.TransCmp.isLE_trans hab (hb c hc)
      · rw [if_neg hab]
        refine List.pairwise_cons.mpr ⟨?_, ih hl⟩
        intro c hc
        rcases List.mem_cons.mp ((insertBy_perm cmp a l).mem_iff.mp hc) with rfl | hc
        · -- of two elements one is not greater
          have hgt : cmp c b = .gt := by
            cases hcmp : cmp c b with
            | gt => rfl
            | lt | eq => exact absurd (by rw [hcmp]; rfl) hab
          rw [Std.OrientedCmp.gt_iff_lt.mp hgt]
          rfl
        · exact hb c hc

/-- Sorting puts a list in order. -/
theorem sortBy_pairwise (cmp : α → α → Ordering) [Std.TransCmp cmp] (l : List α) :
    (sortBy cmp l).Pairwise fun a b => (cmp a b).isLE = true := by
  induction l with
  | nil => exact .nil
  | cons a l ih => exact insertBy_pairwise ih a

/-- An element can be put into its place before or after others are left out. -/
theorem filter_insertBy (p : α → Bool) (h : l.Pairwise fun a b => (cmp a b).isLE = true) :
    (insertBy cmp a l).filter p
      = if p a then insertBy cmp a (l.filter p) else l.filter p := by
  induction l with
  | nil =>
      rw [insertBy, List.filter_cons]
      rfl
  | cons b l ih =>
      obtain ⟨hb, hl⟩ := List.pairwise_cons.mp h
      rw [insertBy]
      by_cases hab : (cmp a b).isLE = true
      · -- what is left of the list is still not smaller
        have hleast : ∀ c ∈ (b :: l).filter p, (cmp a c).isLE = true := by
          intro c hc
          rcases List.mem_cons.mp (List.mem_filter.mp hc).1 with rfl | hc
          · exact hab
          · exact Std.TransCmp.isLE_trans hab (hb c hc)
        rw [if_pos hab, List.filter_cons, insertBy_of_forall_isLE hleast]
      · rw [if_neg hab, List.filter_cons, List.filter_cons, ih hl]
        by_cases hp : p b = true
        · rw [if_pos hp, if_pos hp, insertBy, if_neg hab]
          by_cases ha : p a = true
          · rw [if_pos ha, if_pos ha]
          · rw [if_neg ha, if_neg ha]
        · rw [if_neg hp, if_neg hp]

/-- Sorting is stable, so elements can be left out before or after. -/
theorem filter_sortBy (cmp : α → α → Ordering) [Std.TransCmp cmp] (p : α → Bool) (l : List α) :
    (sortBy cmp l).filter p = sortBy cmp (l.filter p) := by
  induction l with
  | nil => rfl
  | cons a l ih =>
      show (insertBy cmp a (sortBy cmp l)).filter p = _
      rw [filter_insertBy p (sortBy_pairwise cmp l), ih, List.filter_cons]
      by_cases ha : p a = true
      · rw [if_pos ha, if_pos ha]
        rfl
      · rw [if_neg ha, if_neg ha]

end Order

/-! ## Least elements -/

section Least

variable [Ord κ] {key : α → κ} {l : List α} {a : α}

theorem leastBy_eq_none_iff : leastBy key l = none ↔ l = [] := by
  cases l with
  | nil => exact ⟨fun _ => rfl, fun _ => rfl⟩
  | cons b l =>
      refine ⟨?_, fun h => nomatch h⟩
      intro h
      rw [leastBy] at h
      split at h
      · exact nomatch h
      · split at h
        · exact nomatch h
        · exact nomatch h

theorem mem_of_leastBy (h : leastBy key l = some a) : a ∈ l := by
  induction l with
  | nil => exact nomatch h
  | cons b l ih =>
      rw [leastBy] at h
      split at h
      · obtain rfl := Option.some.inj h
        exact List.mem_cons_self
      · rename_i c hc
        split at h
        · obtain rfl := Option.some.inj h
          exact List.mem_cons_self
        · exact List.mem_cons_of_mem b (ih (hc.trans h))

theorem exists_mem_leastBy (key : α → κ) (h : l ≠ []) : ∃ a ∈ l, leastBy key l = some a := by
  cases hleast : leastBy key l with
  | none => exact absurd (leastBy_eq_none_iff.mp hleast) h
  | some a => exact ⟨a, mem_of_leastBy hleast, rfl⟩

/-- What does not change the keys can be done before or after picking. -/
theorem leastBy_map {key' : β → κ} (f : α → β) (h : ∀ a, key' (f a) = key a) (l : List α) :
    leastBy key' (l.map f) = (leastBy key l).map f := by
  induction l with
  | nil => rfl
  | cons a l ih =>
      rw [List.map_cons, leastBy, ih, leastBy]
      cases leastBy key l with
      | none => rfl
      | some b =>
          show (if (compare (key' (f a)) (key' (f b))).isLE then some (f a) else some (f b))
            = (if (compare (key a) (key b)).isLE then some a else some b).map f
          rw [h, h]
          split
          · rfl
          · rfl

/-- In a list in strict order, the first element with a least key comes before all others with that
    key. -/
theorem leastBy_before [Std.TransOrd κ] {R : α → α → Prop} (hl : l.Pairwise R)
    (h : leastBy key l = some a) : ∀ b ∈ l, b = a ∨ compare (key a) (key b) = .lt
      ∨ compare (key a) (key b) = .eq ∧ R a b := by
  induction l generalizing a with
  | nil => exact nomatch h
  | cons b l ih =>
      obtain ⟨hb, hl⟩ := List.pairwise_cons.mp hl
      rw [leastBy] at h
      split at h
      · rename_i hnone
        obtain rfl := Option.some.inj h
        obtain rfl := leastBy_eq_none_iff.mp hnone
        exact List.forall_mem_singleton.mpr (Or.inl rfl)
      · rename_i c hc
        have hrest := ih hl hc
        split at h
        · -- the new element stands before all others, and no other key is smaller
          rename_i hle
          obtain rfl := Option.some.inj h
          refine List.forall_mem_cons.mpr ⟨Or.inl rfl, ?_⟩
          intro d hd
          have hcd : (compare (key c) (key d)).isLE = true := by
            rcases hrest d hd with rfl | hlt | ⟨heq, -⟩
            · exact Std.ReflCmp.isLE_rfl
            · rw [hlt]
              rfl
            · rw [heq]
              rfl
          rcases Ordering.isLE_iff_eq_lt_or_eq_eq.mp (Std.TransCmp.isLE_trans hle hcd) with hlt | heq
          · exact Or.inr (Or.inl hlt)
          · exact Or.inr (Or.inr ⟨heq, hb d hd⟩)
        · rename_i hgt
          obtain rfl := Option.some.inj h
          refine List.forall_mem_cons.mpr ⟨Or.inr (Or.inl ?_), hrest⟩
          rw [Bool.not_eq_true, Ordering.isLE_eq_false] at hgt
          exact Std.OrientedCmp.gt_iff_lt.mp hgt

end Least

/-! ## Duplicates -/

/-- What does not change the keys can be done before or after removing duplicates. -/
theorem distinctBy_map [BEq κ] {key : α → κ} {key' : β → κ} (f : α → β)
    (h : ∀ a, key' (f a) = key a) (l : List α) :
    distinctBy key' (l.map f) = (distinctBy key l).map f := by
  have hgo (seen : List κ) :
      distinctBy.go key' seen (l.map f) = (distinctBy.go key seen l).map f := by
    induction l generalizing seen with
    | nil => rfl
    | cons a l ih =>
        rw [List.map_cons, distinctBy.go, distinctBy.go, h]
        split
        · exact ih seen
        · rw [ih]
          rfl
  exact hgo []

/-- The elements kept stay in order. -/
theorem distinctBy_go_sublist [BEq κ] (key : α → κ) (seen : List κ) (l : List α) :
    (distinctBy.go key seen l).Sublist l := by
  induction l generalizing seen with
  | nil => exact List.Sublist.refl []
  | cons a l ih =>
      rw [distinctBy.go]
      split
      · exact (ih seen).cons a
      · exact (ih (key a :: seen)).cons_cons a

/-- The elements kept have keys of their own, none of them seen before. -/
theorem distinctBy_go_pairwise [BEq κ] [LawfulBEq κ] (key : α → κ) (seen : List κ)
    (l : List α) : (∀ a ∈ distinctBy.go key seen l, key a ∉ seen)
      ∧ (distinctBy.go key seen l).Pairwise fun a b => key a ≠ key b := by
  induction l generalizing seen with
  | nil => exact ⟨List.forall_mem_nil _, .nil⟩
  | cons a l ih =>
      rw [distinctBy.go]
      by_cases hseen : key a ∈ seen
      · rw [if_pos (List.contains_iff_mem.mpr hseen)]
        exact ih seen
      · rw [if_neg (fun h => hseen (List.contains_iff_mem.mp h))]
        obtain ⟨hnew, hpairwise⟩ := ih (key a :: seen)
        refine ⟨List.forall_mem_cons.mpr ⟨hseen, ?_⟩, List.pairwise_cons.mpr ⟨?_, hpairwise⟩⟩
        · intro b hb hmem
          exact hnew b hb (List.mem_cons_of_mem _ hmem)
        · intro b hb heq
          exact hnew b hb (heq ▸ List.mem_cons_self)

/-- Every element has one with its key among those kept, unless the key was seen before. -/
theorem exists_mem_distinctBy_go [BEq κ] [LawfulBEq κ] (key : α → κ) {seen : List κ}
    {l : List α} {a : α} (ha : a ∈ l) :
    key a ∈ seen ∨ ∃ b ∈ distinctBy.go key seen l, key b = key a := by
  induction l generalizing seen with
  | nil => exact nomatch ha
  | cons c l ih =>
      rw [distinctBy.go]
      by_cases hseen : key c ∈ seen
      · rw [if_pos (List.contains_iff_mem.mpr hseen)]
        rcases List.mem_cons.mp ha with rfl | ha
        · exact Or.inl hseen
        · exact ih ha
      · rw [if_neg (fun h => hseen (List.contains_iff_mem.mp h))]
        rcases List.mem_cons.mp ha with rfl | ha
        · exact Or.inr ⟨a, List.mem_cons_self, rfl⟩
        · rcases @ih (key c :: seen) ha with hmem | ⟨b, hb, hkey⟩
          · rcases List.mem_cons.mp hmem with heq | hmem
            · exact Or.inr ⟨c, List.mem_cons_self, heq.symm⟩
            · exact Or.inl hmem
          · exact Or.inr ⟨b, List.mem_cons_of_mem _ hb, hkey⟩

/-- The elements kept are the first ones with their keys. -/
theorem mem_distinctBy_iff [BEq κ] [LawfulBEq κ] (key : α → κ) (l : List α) (a : α) :
    a ∈ distinctBy key l ↔ l.find? (fun b => key b == key a) = some a := by
  have hgo (seen : List κ) : a ∈ distinctBy.go key seen l
      ↔ key a ∉ seen ∧ l.find? (fun b => key b == key a) = some a := by
    induction l generalizing seen with
    | nil => simp [distinctBy.go]
    | cons c l ih =>
        rw [distinctBy.go]
        by_cases hkey : key c = key a
        · by_cases hseen : key a ∈ seen <;> simp [hkey, hseen, ih, eq_comm]
        · have hne : a ≠ c := fun h => hkey (h ▸ rfl)
          by_cases hseen : key c ∈ seen
          · simp [hkey, hseen, ih]
          · simp [hkey, Ne.symm hkey, hseen, hne, ih]
  exact (hgo []).trans (by simp)

/-! ## Partition points -/

/-- Whether the elements that satisfy the test come before all others. -/
def Partitioned (p : α → Bool) (l : List α) : Prop :=
  l.Pairwise fun a b => p b = true → p a = true

namespace Partitioned

variable {p : α → Bool} {l : List α} {i low high : Nat}

/-- A partitioned list is what satisfies the test, and then what does not. -/
theorem filter_append_filter (h : Partitioned p l) :
    l.filter p ++ l.filter (fun a => !p a) = l := by
  induction h with
  | nil => rfl
  | @cons a l hfirst _ ih =>
      cases ha : p a with
      | true => simp [ha, ih]
      | false =>
          -- what comes after `a` does not satisfy the test either
          have hnone : l.filter p = [] := by
            refine List.filter_eq_nil_iff.mpr fun b hb hpb => ?_
            exact Bool.noConfusion (ha.symm.trans (hfirst b hb hpb))
          rw [hnone] at ih
          rw [List.filter_cons_of_neg (Bool.eq_false_iff.mp ha), hnone]
          simpa [ha] using ih

/-- The elements that satisfy the test are the first ones, as many as there are. -/
theorem any_getElem?_iff (h : Partitioned p l) : l[i]?.any p = true ↔ i < l.countP p := by
  have hsplit : l[i]? = (l.filter p ++ l.filter fun a => !p a)[i]? := by
    rw [h.filter_append_filter]
  rw [hsplit, List.countP_eq_length_filter]
  by_cases hi : i < (l.filter p).length
  · have hp : p (l.filter p)[i] = true := (List.mem_filter.mp (List.getElem_mem hi)).2
    rw [List.getElem?_append_left hi, List.getElem?_eq_getElem hi]
    exact iff_of_true hp hi
  · rw [List.getElem?_append_right (Nat.le_of_not_lt hi)]
    refine iff_of_false ?_ hi
    cases ha : (l.filter fun a => !p a)[i - (l.filter p).length]? with
    | none => exact Bool.false_ne_true
    | some a =>
        have hp := (List.mem_filter.mp (List.mem_of_getElem? ha)).2
        simpa using hp

theorem drop_countP (h : Partitioned p l) : l.drop (l.countP p) = l.filter fun a => !p a := by
  calc l.drop (l.countP p)
      = (l.filter p ++ l.filter fun a => !p a).drop (l.filter p).length := by
        rw [h.filter_append_filter, List.countP_eq_length_filter]
    _ = l.filter fun a => !p a := List.drop_left

theorem takeWhile_eq_filter (h : Partitioned p l) : l.takeWhile p = l.filter p := by
  have hnone : (l.filter fun a => !p a).takeWhile p = [] := by
    have hall : ∀ a ∈ l.takeWhile p, p a = true := List.all_eq_true.mp List.all_takeWhile
    simpa [List.takeWhile_filter] using hall
  calc l.takeWhile p
      = (l.filter p ++ l.filter fun a => !p a).takeWhile p := by rw [h.filter_append_filter]
    _ = l.filter p ++ (l.filter fun a => !p a).takeWhile p :=
        List.takeWhile_append_of_pos fun a ha => (List.mem_filter.mp ha).2
    _ = l.filter p := by rw [hnone, List.append_nil]

/-- The halving keeps the number of elements that satisfy the test between its bounds. -/
theorem partitionPoint_go_eq (h : Partitioned p l) (hlow : low ≤ l.countP p)
    (hhigh : l.countP p ≤ high) : partitionPoint.go p l low high = l.countP p := by
  fun_induction partitionPoint.go p l low high with
  | case1 low high hlt middle htest ih => exact ih (h.any_getElem?_iff.mp htest) hhigh
  | case2 low high hlt middle htest ih =>
      exact ih hlow (Nat.le_of_not_lt fun hlt => htest (h.any_getElem?_iff.mpr hlt))
  | case3 low high hlt => omega

theorem partitionPoint_eq_countP (h : Partitioned p l) : partitionPoint p l = l.countP p :=
  h.partitionPoint_go_eq (Nat.zero_le _) List.countP_le_length

end Partitioned

end ScriptAtlas
