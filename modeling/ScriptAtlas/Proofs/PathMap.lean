import ScriptAtlas.Path.Map
import Mathlib.Data.List.Forall2
import Mathlib.Data.List.Pairwise
import Mathlib.Data.List.Perm.Basic

/-! # Path maps — one listing for each map

    Putting and erasing entries keeps a map in path order, and a map in path
    order is determined by its entries: in which order they came does not show
    (`Ordered.ext`).  Two maps that are changed at the same paths keep standing
    side by side (`SideBySide`). -/

namespace ScriptAtlas

theorem Path.same_iff {p q : Path} : p.same q = true ↔ p.key = q.key := beq_iff_eq

/-- Paths that come neither before nor after each other are the same path. -/
theorem Path.order_eq_iff {p q : Path} : p.order q = .eq ↔ p.key = q.key :=
  Std.LawfulEqOrd.compare_eq_iff_eq

theorem Path.order_gt_iff {p q : Path} : p.order q = .gt ↔ q.order p = .lt := by
  show compare p.key q.key = .gt ↔ compare q.key p.key = .lt
  exact Std.OrientedCmp.gt_iff_lt

theorem Path.order_lt_trans {p q r : Path} (hpq : p.order q = .lt) (hqr : q.order r = .lt) :
    p.order r = .lt := by
  show compare p.key r.key = .lt
  exact Std.TransCmp.lt_trans hpq hqr

/-- Where a path comes does not depend on its spelling. -/
theorem Path.order_congr_right {p q r : Path} (h : q.key = r.key) : p.order q = p.order r := by
  show compare p.key q.key = compare p.key r.key
  rw [h]

namespace PathMap

variable {α β : Type}

/-- The entries go strictly by path. -/
def Ordered (m : PathMap α) : Prop := m.Pairwise fun a b => a.1.order b.1 = .lt

theorem ordered_iff_keys {m : PathMap α} :
    Ordered m ↔ m.keys.Pairwise fun p q => p.order q = .lt := by
  rw [keys, List.pairwise_map]
  rfl

/-- What a map holds after an entry was put: that entry, in some spelling, and old ones. -/
theorem key_eq_or_mem_of_mem_put {p : Path} {a : α} {m : PathMap α} {e : Path × α}
    (he : e ∈ put p a m) : e.1.key = p.key ∨ e ∈ m := by
  induction m with
  | nil => exact Or.inl (congrArg (fun e : Path × α => e.1.key) (List.mem_singleton.mp he))
  | cons x m ih =>
      obtain ⟨q, b⟩ := x
      rw [put] at he
      split at he
      · rcases List.mem_cons.mp he with rfl | he
        · exact Or.inl rfl
        · exact Or.inr he
      · next heq =>
          rcases List.mem_cons.mp he with rfl | he
          · exact Or.inl (Path.order_eq_iff.mp heq).symm
          · exact Or.inr (List.mem_cons_of_mem _ he)
      · rcases List.mem_cons.mp he with rfl | he
        · exact Or.inr List.mem_cons_self
        · exact (ih he).imp_right (List.mem_cons_of_mem _)

/-- Putting an entry keeps a map in path order. -/
theorem Ordered.put {p : Path} {a : α} {m : PathMap α} (h : Ordered m) :
    Ordered (PathMap.put p a m) := by
  induction m with
  | nil => exact List.pairwise_singleton _ _
  | cons x m ih =>
      obtain ⟨q, b⟩ := x
      obtain ⟨hq, hm⟩ := List.pairwise_cons.mp h
      rw [PathMap.put]
      split
      · next hlt =>
          refine List.pairwise_cons.mpr ⟨?_, h⟩
          intro e he
          rcases List.mem_cons.mp he with rfl | he
          · exact hlt
          · exact Path.order_lt_trans hlt (hq e he)
      · exact List.pairwise_cons.mpr ⟨hq, hm⟩
      · next hgt =>
          refine List.pairwise_cons.mpr ⟨?_, ih hm⟩
          intro e he
          rcases key_eq_or_mem_of_mem_put he with hkey | he
          · exact (Path.order_congr_right hkey).trans (Path.order_gt_iff.mp hgt)
          · exact hq e he

theorem Ordered.erase {m : PathMap α} (h : Ordered m) (p : Path) : Ordered (m.erase p) :=
  h.filter _

/-- Maps in path order with the same entries are listed alike. -/
theorem Ordered.ext {m n : PathMap α} (hm : Ordered m) (hn : Ordered n)
    (h : ∀ e, e ∈ m ↔ e ∈ n) : m = n := by
  have hirrefl : ∀ {a b : Path × α}, a.1.order b.1 = .lt → a ≠ b := by
    rintro a b hlt rfl
    rw [Path.order_eq_iff.mpr rfl] at hlt
    exact nomatch hlt
  have hperm : m.Perm n := (List.perm_ext_iff_of_nodup (hm.imp hirrefl) (hn.imp hirrefl)).mpr h
  refine hperm.eq_of_pairwise ?_ hm hn
  intro a b _ _ hab hba
  exact absurd rfl (hirrefl (Path.order_lt_trans hab hba))

/-- A map in path order has no two entries at one path. -/
theorem Ordered.pairwise_ne {m : PathMap α} (h : Ordered m) :
    m.Pairwise fun a b => a.1.key ≠ b.1.key := by
  refine h.imp ?_
  intro a b hlt hkey
  rw [Path.order_eq_iff.mpr hkey] at hlt
  exact nomatch hlt

/-- Where no two entries stand at one path, each is known by its path, however it is spelled. -/
theorem eq_of_pairwise_ne {m : PathMap α} (h : m.Pairwise fun a b => a.1.key ≠ b.1.key)
    {a b : Path × α} (ha : a ∈ m) (hb : b ∈ m) (hkey : a.1.key = b.1.key) : a = b := by
  have hsymm : Std.Symm fun a b : Path × α => a.1.key ≠ b.1.key := ⟨fun _ _ => Ne.symm⟩
  by_contra hab
  exact h.forall ha hb hab hkey

/-- A map in path order has one entry at a path, however it is spelled. -/
theorem Ordered.eq_of_key {m : PathMap α} (h : Ordered m) {a b : Path × α} (ha : a ∈ m) (hb : b ∈ m)
    (hkey : a.1.key = b.1.key) : a = b :=
  eq_of_pairwise_ne h.pairwise_ne ha hb hkey

/-- Every spelling of a path finds the same entry. -/
theorem get?_eq_of_key (m : PathMap α) {p q : Path} (hkey : p.key = q.key) :
    m.get? p = m.get? q := by
  unfold get? Path.same
  rw [hkey]

/-- The entry at a path, with the path as it is spelled in the map. -/
def lookup? (m : PathMap α) (p : Path) : Option (Path × α) := m.find? (·.1.same p)

/-- The entry put at a path is found there in any spelling, under the one that was there before;
    elsewhere nothing changes. -/
theorem Ordered.lookup?_put {m : PathMap α} (h : Ordered m) (p q : Path) (a : α) :
    (PathMap.put p a m).lookup? q
      = if p.same q then some (((m.lookup? q).map (·.1)).getD p, a) else m.lookup? q := by
  induction m with
  | nil =>
      rw [PathMap.put, lookup?, List.find?_cons, List.find?_nil]
      cases p.same q <;> rfl
  | cons x m ih =>
      obtain ⟨r, b⟩ := x
      obtain ⟨hr, hm⟩ := List.pairwise_cons.mp h
      cases hpr : p.order r with
      | lt =>
          simp only [PathMap.put, hpr]
          rw [lookup?, List.find?_cons]
          cases hpq : p.same q with
          | false => rfl
          | true =>
              -- `p` comes before all that is in the map, so none of it is spelled otherwise
              have hnone : lookup? ((r, b) :: m) q = none := by
                refine List.find?_eq_none.mpr fun e he hsame => ?_
                have hlt : p.order e.1 = .lt := by
                  rcases List.mem_cons.mp he with rfl | he
                  · exact hpr
                  · exact Path.order_lt_trans hpr (hr e he)
                have hkey := (Path.same_iff.mp hpq).trans (Path.same_iff.mp hsame).symm
                rw [Path.order_eq_iff.mpr hkey] at hlt
                exact nomatch hlt
              rw [hnone]
              rfl
      | eq =>
          have hsame : r.same q = p.same q := by
            rw [Path.same, Path.same, Path.order_eq_iff.mp hpr]
          simp only [PathMap.put, hpr]
          rw [lookup?, lookup?, List.find?_cons, List.find?_cons, hsame]
          cases p.same q <;> rfl
      | gt =>
          simp only [PathMap.put, hpr]
          rw [lookup?, lookup?, List.find?_cons, List.find?_cons]
          cases hrq : r.same q with
          | false => exact ih hm
          | true =>
              -- a path that differs from `r` is not the one looked for
              have hpq : p.same q = false := by
                rw [Bool.eq_false_iff]
                intro hpq
                have hkey := (Path.same_iff.mp hpq).trans (Path.same_iff.mp hrq).symm
                rw [Path.order_eq_iff.mpr hkey] at hpr
                exact nomatch hpr
              rw [hpq]
              rfl

/-- The entry erased is found in no spelling; elsewhere nothing changes. -/
theorem lookup?_erase (p q : Path) (m : PathMap α) :
    (m.erase p).lookup? q = if p.same q then none else m.lookup? q := by
  have hkeep : ∀ e : Path × α, e.1.same q = true → (!e.1.same p) = !p.same q := by
    intro e heq
    rw [Path.same, Path.same, Path.same_iff.mp heq, Bool.beq_comm]
  rw [lookup?, lookup?, erase, List.find?_filter]
  by_cases hpq : p.same q = true
  · rw [if_pos hpq, List.find?_eq_none]
    intro e _ he
    obtain ⟨hep, heq⟩ := of_decide_eq_true he
    rw [hkeep e heq, hpq] at hep
    exact nomatch hep
  · rw [if_neg hpq]
    congr 1
    funext e
    by_cases heq : e.1.same q = true
    · simp [hkeep e heq, hpq, heq]
    · simp [heq]

/-- Two maps with the same paths in the same order, and entries that belong together. -/
def SideBySide (R : Path → α → β → Prop) (m : PathMap α) (n : PathMap β) : Prop :=
  List.Forall₂ (fun x y => x.1 = y.1 ∧ R x.1 x.2 y.2) m n

namespace SideBySide

variable {R : Path → α → β → Prop} {m : PathMap α} {n : PathMap β}

/-- Entries put at the same path belong together if they do at every spelling of it. -/
theorem put {p : Path} {a : α} {b : β} (h : SideBySide R m n) (hR : ∀ q, q.key = p.key → R q a b) :
    SideBySide R (PathMap.put p a m) (PathMap.put p b n) := by
  induction h with
  | nil => exact .cons ⟨rfl, hR p rfl⟩ .nil
  | @cons x y m n hxy h ih =>
      obtain ⟨q, a'⟩ := x
      obtain ⟨q', b'⟩ := y
      obtain ⟨hq, hR'⟩ : q = q' ∧ R q a' b' := hxy
      subst hq
      cases hpq : p.order q with
      | lt =>
          simp only [PathMap.put, hpq]
          exact .cons ⟨rfl, hR p rfl⟩ (.cons ⟨rfl, hR'⟩ h)
      | eq =>
          simp only [PathMap.put, hpq]
          exact .cons ⟨rfl, hR q (Path.order_eq_iff.mp hpq).symm⟩ h
      | gt =>
          simp only [PathMap.put, hpq]
          exact .cons ⟨rfl, hR'⟩ ih

theorem erase (h : SideBySide R m n) (p : Path) :
    SideBySide R (PathMap.erase m p) (PathMap.erase n p) := by
  induction h with
  | nil => exact .nil
  | @cons x y m n hxy h ih =>
      rw [PathMap.erase, PathMap.erase, List.filter_cons, List.filter_cons, ← hxy.1]
      split
      · exact .cons hxy ih
      · exact ih

/-- Every entry has one beside it. -/
theorem exists_of_mem (h : SideBySide R m n) {x : Path × α} (hx : x ∈ m) : ∃ b, R x.1 x.2 b := by
  induction h with
  | nil => exact nomatch hx
  | @cons y z m n hyz h ih =>
      rcases List.mem_cons.mp hx with rfl | hx
      · exact ⟨z.2, hyz.2⟩
      · exact ih hx

/-- The entries that two maps have at a path belong together. -/
theorem get? (h : SideBySide R m n) (p : Path) :
    Option.Rel (fun a b => ∃ q, R q a b) (PathMap.get? m p) (PathMap.get? n p) := by
  induction h with
  | nil => exact .none
  | @cons x y m n hxy h ih =>
      unfold PathMap.get?
      rw [List.find?_cons, List.find?_cons, ← hxy.1]
      split
      · exact .some ⟨x.1, hxy.2⟩
      · exact ih

theorem keys_eq (h : SideBySide R m n) : PathMap.keys m = PathMap.keys n := by
  induction h with
  | nil => rfl
  | cons hxy _ ih => exact congrArg₂ List.cons hxy.1 ih

/-- Both maps are in path order if one is. -/
theorem ordered (h : SideBySide R m n) (hn : Ordered n) : Ordered m := by
  rw [ordered_iff_keys] at hn ⊢
  rw [h.keys_eq]
  exact hn

end SideBySide

/-- The entry at a path is an entry of the map, under some spelling of the path. -/
theorem mem_of_get? {m : PathMap α} {p : Path} {a : α} (h : m.get? p = some a) :
    ∃ q, (q, a) ∈ m ∧ q.key = p.key := by
  obtain ⟨⟨q, b⟩, hfind, rfl⟩ := Option.map_eq_some_iff.mp h
  have hsame := List.find?_some hfind
  exact ⟨q, List.mem_of_find?_eq_some hfind, Path.same_iff.mp hsame⟩

/-- An entry of a map in path order is the one at its path. -/
theorem Ordered.get?_of_mem {m : PathMap α} (h : Ordered m) {e : Path × α} (he : e ∈ m) {p : Path}
    (hkey : e.1.key = p.key) : m.get? p = some e.2 := by
  cases hget : m.get? p with
  | none =>
      have hnone := List.find?_eq_none.mp (Option.map_eq_none_iff.mp hget) e he
      exact absurd (Path.same_iff.mpr hkey) hnone
  | some a =>
      obtain ⟨q, hmem, hq⟩ := mem_of_get? hget
      rw [h.eq_of_key he hmem (hkey.trans hq.symm)]

end PathMap

end ScriptAtlas
