/-! # Brackets — groups that open and close

    Conditions and subscripts are groups between two kinds of brackets, in
    lexemes or in characters.  They are found by counting (`afterClose`,
    `passes`), and said by nesting (`Balanced`, `PastGroups`).  The two agree:

    * counting stops at the bracket before which everything is balanced
      (`afterClose_eq_some_iff`);
    * hence a test behind all groups at the start of a list may be made by
      counting (`passes_zero_iff`). -/

namespace ScriptAtlas

variable {α : Type} (isOpen isClose : α → Bool)

/-- A list in which every opening bracket has a closing one after it, properly nested. -/
inductive Balanced : List α → Prop
  | nil : Balanced []
  | other {a : α} {l : List α} (hopen : isOpen a = false) (hclose : isClose a = false)
      (h : Balanced l) : Balanced (a :: l)
  | group {a b : α} {inner l : List α} (ha : isOpen a = true) (hinner : Balanced inner)
      (hopen : isOpen b = false) (hclose : isClose b = true) (h : Balanced l) :
      Balanced (a :: (inner ++ b :: l))

/-- What follows the bracket that closes the group, within as many further groups as `depth`
    says. -/
def afterClose : (depth : Nat) → List α → Option (List α)
  | _, [] => none
  | 0, a :: l =>
    if isOpen a then afterClose 1 l else if isClose a then some l else afterClose 0 l
  | depth + 1, a :: l =>
    if isOpen a then afterClose (depth + 2) l
    else if isClose a then afterClose depth l
    else afterClose (depth + 1) l

section

variable {isOpen isClose} {a : α} {l m rest : List α} {depth : Nat}

theorem afterClose_open (h : isOpen a = true) :
    afterClose isOpen isClose depth (a :: l) = afterClose isOpen isClose (depth + 1) l := by
  cases depth <;> rw [afterClose, if_pos h]

theorem afterClose_other (hopen : isOpen a = false) (hclose : isClose a = false) :
    afterClose isOpen isClose depth (a :: l) = afterClose isOpen isClose depth l := by
  cases depth <;>
    rw [afterClose, hopen, hclose, if_neg Bool.false_ne_true, if_neg Bool.false_ne_true]

theorem afterClose_close_zero (hopen : isOpen a = false) (hclose : isClose a = true) :
    afterClose isOpen isClose 0 (a :: l) = some l := by
  rw [afterClose, hopen, hclose, if_neg Bool.false_ne_true, if_pos rfl]

theorem afterClose_close_succ (hopen : isOpen a = false) (hclose : isClose a = true) :
    afterClose isOpen isClose (depth + 1) (a :: l) = afterClose isOpen isClose depth l := by
  rw [afterClose, hopen, hclose, if_neg Bool.false_ne_true, if_pos rfl]

/-- Out of several groups one comes group by group. -/
theorem afterClose_add (inner outer : Nat) (l : List α) :
    afterClose isOpen isClose (outer + inner + 1) l
      = (afterClose isOpen isClose inner l).bind (afterClose isOpen isClose outer) := by
  induction l generalizing inner with
  | nil => rfl
  | cons a l ih =>
      by_cases hopen : isOpen a = true
      · rw [afterClose_open hopen, afterClose_open hopen]
        exact ih (inner + 1)
      · rw [Bool.not_eq_true] at hopen
        by_cases hclose : isClose a = true
        · rw [afterClose_close_succ hopen hclose]
          cases inner with
          | zero =>
              rw [afterClose_close_zero hopen hclose]
              rfl
          | succ inner =>
              rw [afterClose_close_succ hopen hclose]
              exact ih inner
        · rw [Bool.not_eq_true] at hclose
          rw [afterClose_other hopen hclose, afterClose_other hopen hclose]
          exact ih inner

/-- What is balanced closes nothing that was open before it. -/
theorem Balanced.afterClose_append (h : Balanced isOpen isClose l) (depth : Nat) :
    afterClose isOpen isClose depth (l ++ rest) = afterClose isOpen isClose depth rest := by
  induction h generalizing depth rest with
  | nil => rfl
  | other hopen hclose _ ih =>
      rw [List.cons_append, afterClose_other hopen hclose]
      exact ih depth
  | group ha _ hopen hclose _ ihinner ih =>
      rw [List.cons_append, List.append_assoc, afterClose_open ha, ihinner, List.cons_append,
        afterClose_close_succ hopen hclose]
      exact ih depth

/-- **GROUPS**: counting comes out of a group at the closing bracket before which everything is
    balanced. -/
theorem afterClose_eq_some_iff : afterClose isOpen isClose 0 l = some rest
    ↔ ∃ inner b, l = inner ++ b :: rest ∧ Balanced isOpen isClose inner
      ∧ isOpen b = false ∧ isClose b = true := by
  constructor
  · -- a group within is passed at once, so the induction is on the length
    intro h
    induction hlength : l.length using Nat.strongRecOn generalizing l rest with
    | ind n ih =>
        cases l with
        | nil => exact nomatch h
        | cons a l =>
            rw [List.length_cons] at hlength
            by_cases hopen : isOpen a = true
            · rw [afterClose_open hopen, afterClose_add 0 0] at h
              obtain ⟨mid, hmid, hrest⟩ := Option.bind_eq_some_iff.mp h
              obtain ⟨inner, b, rfl, hinner, hb, hb'⟩ := ih l.length (by omega) hmid rfl
              rw [List.length_append, List.length_cons] at hlength
              obtain ⟨inner', b', rfl, hinner', hbb⟩ := ih mid.length (by omega) hrest rfl
              refine ⟨a :: (inner ++ b :: inner'), b', ?_, .group hopen hinner hb hb' hinner', hbb⟩
              rw [List.cons_append, List.append_assoc, List.cons_append]
            · rw [Bool.not_eq_true] at hopen
              by_cases hclose : isClose a = true
              · rw [afterClose_close_zero hopen hclose] at h
                obtain rfl := Option.some.inj h
                exact ⟨[], a, rfl, .nil, hopen, hclose⟩
              · rw [Bool.not_eq_true] at hclose
                rw [afterClose_other hopen hclose] at h
                obtain ⟨inner, b, rfl, hinner, hb⟩ := ih l.length (by omega) h rfl
                exact ⟨a :: inner, b, rfl, .other hopen hclose hinner, hb⟩
  · rintro ⟨inner, b, rfl, hinner, hopen, hclose⟩
    rw [hinner.afterClose_append, afterClose_close_zero hopen hclose]

/-- Reading a part of a list either comes out of the group or changes the depth. -/
theorem afterClose_append (depth : Nat) (l : List α) :
    (∃ left, ∀ m, afterClose isOpen isClose depth (l ++ m) = some (left ++ m))
      ∨ ∃ depth', ∀ m, afterClose isOpen isClose depth (l ++ m)
        = afterClose isOpen isClose depth' m := by
  induction l generalizing depth with
  | nil => exact Or.inr ⟨depth, fun m => rfl⟩
  | cons a l ih =>
      by_cases hopen : isOpen a = true
      · simp only [List.cons_append, afterClose_open hopen]
        exact ih (depth + 1)
      · rw [Bool.not_eq_true] at hopen
        by_cases hclose : isClose a = true
        · cases depth with
          | zero =>
              simp only [List.cons_append, afterClose_close_zero hopen hclose]
              exact Or.inl ⟨l, fun m => rfl⟩
          | succ depth =>
              simp only [List.cons_append, afterClose_close_succ hopen hclose]
              exact ih depth
        · rw [Bool.not_eq_true] at hclose
          simp only [List.cons_append, afterClose_other hopen hclose]
          exact ih depth

/-- A bracket that closes a later group closes no earlier one. -/
theorem afterClose_ne_of_later (l : List α) (ha : isOpen a = true)
    (hlater : afterClose isOpen isClose 0 m = some []) :
    afterClose isOpen isClose depth (l ++ a :: m) ≠ some [] := by
  intro h
  rcases afterClose_append depth l with ⟨left, hleft⟩ | ⟨depth', hdepth⟩
  · rw [hleft] at h
    exact absurd (Option.some.inj h) (by simp)
  · rw [hdepth, afterClose_open ha] at h
    have houter : afterClose isOpen isClose (depth' + 0 + 1) m = _ := afterClose_add 0 depth' m
    rw [hlater] at houter
    exact nomatch houter.symm.trans h

end

/-! ## Behind the groups at the start -/

/-- A list of which a property holds behind the groups at its start; elements between the groups may
    be skipped. -/
inductive PastGroups (skips : α → Bool) (P : List α → Prop) : List α → Prop
  | here {l : List α} (h : P l) : PastGroups skips P l
  | skip {a : α} {l : List α} (ha : skips a = true) (h : PastGroups skips P l) :
      PastGroups skips P (a :: l)
  | group {a b : α} {inner l : List α} (ha : isOpen a = true)
      (hinner : Balanced isOpen isClose inner) (hopen : isOpen b = false)
      (hclose : isClose b = true)
      (h : PastGroups skips P l) : PastGroups skips P (a :: (inner ++ b :: l))

/-- Whether a list passes a test behind the groups at its start; `depth` counts the groups that are
    open. -/
def passes (skips : α → Bool) (test : List α → Bool) : (depth : Nat) → List α → Bool
  | _, [] => false
  | 0, a :: l =>
    if skips a then passes skips test 0 l
    else if isOpen a then passes skips test 1 l
    else test (a :: l)
  | depth + 1, a :: l =>
    if isOpen a then passes skips test (depth + 2) l
    else if isClose a then passes skips test depth l
    else passes skips test (depth + 1) l

/-- The groups at the start of a list; `depth` counts the groups that are open. -/
def groups : (depth : Nat) → List α → List α
  | _, [] => []
  | 0, a :: l => if isOpen a then a :: groups 1 l else []
  | depth + 1, a :: l =>
    if isOpen a then a :: groups (depth + 2) l
    else if isClose a then a :: groups depth l
    else a :: groups (depth + 1) l

section

variable {isOpen isClose} {skips : α → Bool} {test : List α → Bool} {a : α} {l rest : List α}
  {depth : Nat}

theorem passes_skip (ha : skips a = true) : passes isOpen isClose skips test 0 (a :: l)
    = passes isOpen isClose skips test 0 l := by
  rw [passes, if_pos ha]

theorem passes_open_zero (ha : skips a = false) (hopen : isOpen a = true) :
    passes isOpen isClose skips test 0 (a :: l) = passes isOpen isClose skips test 1 l := by
  rw [passes, ha, if_neg Bool.false_ne_true, if_pos hopen]

theorem passes_test (ha : skips a = false) (hopen : isOpen a = false) :
    passes isOpen isClose skips test 0 (a :: l) = test (a :: l) := by
  rw [passes, ha, hopen, if_neg Bool.false_ne_true, if_neg Bool.false_ne_true]

/-- Within groups, nothing counts but how to come out of them. -/
theorem passes_succ (depth : Nat) (l : List α) :
    passes isOpen isClose skips test (depth + 1) l
      = (afterClose isOpen isClose depth l).any (passes isOpen isClose skips test 0) := by
  induction l generalizing depth with
  | nil => rfl
  | cons a l ih =>
      rw [passes]
      by_cases hopen : isOpen a = true
      · rw [if_pos hopen, afterClose_open hopen, ih]
      · rw [if_neg hopen]
        rw [Bool.not_eq_true] at hopen
        by_cases hclose : isClose a = true
        · rw [if_pos hclose]
          cases depth with
          | zero =>
              rw [afterClose_close_zero hopen hclose]
              rfl
          | succ depth => rw [afterClose_close_succ hopen hclose, ih]
        · rw [if_neg hclose]
          rw [Bool.not_eq_true] at hclose
          rw [afterClose_other hopen hclose, ih]

/-- What is balanced is passed within a group. -/
theorem Balanced.passes_append (h : Balanced isOpen isClose l) (depth : Nat) :
    passes isOpen isClose skips test (depth + 1) (l ++ rest)
      = passes isOpen isClose skips test (depth + 1) rest := by
  rw [passes_succ, h.afterClose_append, passes_succ]

/-- Elements that are no brackets are balanced. -/
theorem balanced_of_forall (h : ∀ a ∈ l, isOpen a = false ∧ isClose a = false) :
    Balanced isOpen isClose l := by
  induction l with
  | nil => exact .nil
  | cons a l ih =>
      obtain ⟨ha, hl⟩ := List.forall_mem_cons.mp h
      exact .other ha.1 ha.2 (ih hl)

/-- **PAST GROUPS**: the test that counts is made behind the groups, if it fails on the empty list
    and on what is skipped or opens a group. -/
theorem passes_zero_iff (hnil : test [] = false)
    (htest : ∀ a l, test (a :: l) = true → skips a = false ∧ isOpen a = false)
    (hskips : ∀ a, skips a = true → isOpen a = false) :
    passes isOpen isClose skips test 0 l = true
      ↔ PastGroups isOpen isClose skips (fun l => test l = true) l := by
  constructor
  · -- a group is passed at once, so the induction is on the length
    intro h
    induction hlength : l.length using Nat.strongRecOn generalizing l with
    | ind n ih =>
        cases l with
        | nil => exact absurd h Bool.false_ne_true
        | cons a l =>
            rw [List.length_cons] at hlength
            by_cases hskip : skips a = true
            · rw [passes_skip hskip] at h
              exact .skip hskip (ih l.length (by omega) h rfl)
            · rw [Bool.not_eq_true] at hskip
              by_cases hopen : isOpen a = true
              · rw [passes_open_zero hskip hopen, passes_succ] at h
                obtain ⟨rest, hrest, hpasses⟩ := (Option.any_eq_true _ _).mp h
                obtain ⟨inner, b, rfl, hinner, hb, hb'⟩ := afterClose_eq_some_iff.mp hrest
                rw [List.length_append, List.length_cons] at hlength
                exact .group hopen hinner hb hb' (ih rest.length (by omega) hpasses rfl)
              · rw [Bool.not_eq_true] at hopen
                rw [passes_test hskip hopen] at h
                exact .here h
  · intro h
    induction h with
    | @here l h =>
        cases l with
        | nil => exact absurd (hnil.symm.trans h) Bool.false_ne_true
        | cons a l =>
            obtain ⟨hskip, hopen⟩ := htest a l h
            rw [passes_test hskip hopen]
            exact h
    | skip ha _ ih =>
        rw [passes_skip ha]
        exact ih
    | @group a b inner l ha hinner hopen hclose _ ih =>
        have hskip : skips a = false := by
          rw [Bool.eq_false_iff]
          intro hskip
          exact Bool.false_ne_true ((hskips a hskip).symm.trans ha)
        rw [passes_open_zero hskip ha, passes_succ,
          afterClose_eq_some_iff.mpr ⟨inner, b, rfl, hinner, hopen, hclose⟩]
        exact ih

end

end ScriptAtlas
