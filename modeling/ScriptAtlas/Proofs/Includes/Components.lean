import ScriptAtlas.Includes.Cycle
import Mathlib.Logic.Relation
import Mathlib.Data.List.Induction

/-! # Components — equal labels mean connected nodes

    `components` starts from a label of its own for every node, and every link
    replaces the label of its one end by that of the other.  The route:

    * joining two labels makes exactly the nodes equal that had one of the two
      (`joinLabels_eq_iff`);
    * so after any number of links, two nodes have the same label when the links
      taken so far connect them (`labelIn_components_eq_iff`). -/

namespace ScriptAtlas.IncludeGraph

open Relation

/-- Whether a link leads from one node to another. -/
def Linked (links : List (Nat × Nat)) (a b : Nat) : Prop := (a, b) ∈ links

theorem length_joinLabels (labels : List Nat) (link : Nat × Nat) :
    (joinLabels labels link).length = labels.length := by
  unfold joinLabels
  split
  · exact List.length_map _
  · rfl

/-- Every label that is the one given up becomes the other. -/
theorem getElem?_joinLabels {labels : List Nat} {x y k l : Nat} (hx : labels[x]? = some k)
    (hy : labels[y]? = some l) (v : Nat) :
    (joinLabels labels (x, y))[v]? = labels[v]?.map fun m => if m == l then k else m := by
  simp only [joinLabels, hx, hy, List.getElem?_map]

/-- Joining two labels makes nodes equal that were equal, or that had one of the two each. -/
theorem joinLabels_eq_iff {labels : List Nat} {x y v w : Nat} (hx : x < labels.length)
    (hy : y < labels.length) (hv : v < labels.length) :
    (joinLabels labels (x, y))[v]? = (joinLabels labels (x, y))[w]? ↔
      labels[v]? = labels[w]? ∨ (labels[v]? = labels[x]? ∧ labels[w]? = labels[y]?)
        ∨ (labels[v]? = labels[y]? ∧ labels[w]? = labels[x]?) := by
  have hx' := List.getElem?_eq_getElem hx
  have hy' := List.getElem?_eq_getElem hy
  have hv' := List.getElem?_eq_getElem hv
  rw [getElem?_joinLabels hx' hy', getElem?_joinLabels hx' hy', hx', hy', hv']
  cases labels[w]? with
  | none => simp
  | some m =>
      simp only [Option.map_some, Option.some.injEq, beq_iff_eq]
      -- joining renames the label of `y` to that of `x`: four cases, by who had it
      by_cases hvy : labels[v] = labels[y] <;> by_cases hmy : m = labels[y]
      · simp [hvy, hmy]
      · rw [if_pos hvy, if_neg hmy]
        constructor
        · intro h
          exact Or.inr (Or.inr ⟨hvy, h.symm⟩)
        · rintro (h | ⟨-, h⟩ | ⟨-, h⟩)
          · exact absurd (h.symm.trans hvy) hmy
          · exact absurd h hmy
          · exact h.symm
      · rw [if_neg hvy, if_pos hmy]
        constructor
        · intro h
          exact Or.inr (Or.inl ⟨h, hmy⟩)
        · rintro (h | ⟨h, -⟩ | ⟨h, -⟩)
          · exact absurd (h.trans hmy) hvy
          · exact h
          · exact absurd h hvy
      · rw [if_neg hvy, if_neg hmy]
        constructor
        · exact Or.inl
        · rintro (h | ⟨-, h⟩ | ⟨h, -⟩)
          · exact h
          · exact absurd h hmy
          · exact absurd h hvy

section

variable {count : Nat} {links : List (Nat × Nat)}

theorem length_components (count : Nat) (links : List (Nat × Nat)) :
    (components count links).length = count := by
  induction links using List.reverseRecOn with
  | nil => exact List.length_range
  | append_singleton links link ih =>
      rw [components, List.foldl_append]
      exact (length_joinLabels _ link).trans ih

/-- Nodes that one more link makes equal. -/
theorem components_concat_eq_iff {x y v w : Nat} (hx : x < count) (hy : y < count)
    (hv : v < count) :
    (components count (links ++ [(x, y)]))[v]? = (components count (links ++ [(x, y)]))[w]? ↔
      (components count links)[v]? = (components count links)[w]?
      ∨ ((components count links)[v]? = (components count links)[x]?
          ∧ (components count links)[w]? = (components count links)[y]?)
      ∨ ((components count links)[v]? = (components count links)[y]?
          ∧ (components count links)[w]? = (components count links)[x]?) := by
  rw [← length_components count links] at hx hy hv
  have hconcat : components count (links ++ [(x, y)])
      = joinLabels (components count links) (x, y) := by
    rw [components, List.foldl_append]
    rfl
  rw [hconcat]
  exact joinLabels_eq_iff hx hy hv

/-- The ends of a link have the same label. -/
theorem components_eq_of_linked (hlinks : ∀ l ∈ links, l.1 < count ∧ l.2 < count) {a b : Nat}
    (h : Linked links a b) : (components count links)[a]? = (components count links)[b]? := by
  induction links using List.reverseRecOn with
  | nil => exact nomatch h
  | append_singleton links link ih =>
      obtain ⟨x, y⟩ := link
      obtain ⟨hx, hy⟩ := hlinks (x, y) List.mem_concat_self
      obtain ⟨ha, -⟩ := hlinks (a, b) h
      rw [components_concat_eq_iff hx hy ha]
      rcases List.mem_append.mp h with hold | hnew
      · exact Or.inl (ih (fun l hl => hlinks l (List.mem_append_left _ hl)) hold)
      · obtain ⟨rfl, rfl⟩ := Prod.mk.inj (List.mem_singleton.mp hnew)
        exact Or.inr (Or.inl ⟨rfl, rfl⟩)

/-- Nodes with the same label are connected. -/
theorem eqvGen_of_components_eq (hlinks : ∀ l ∈ links, l.1 < count ∧ l.2 < count) {a b : Nat}
    (ha : a < count) (h : (components count links)[a]? = (components count links)[b]?) :
    EqvGen (Linked links) a b := by
  induction links using List.reverseRecOn generalizing a b with
  | nil =>
      have hrange : ∀ v : Nat, (components count [])[v]? = (List.range count)[v]? := fun _ => rfl
      rw [hrange, hrange, List.getElem?_range ha, eq_comm] at h
      obtain ⟨hb, hba⟩ := List.getElem?_eq_some_iff.mp h
      rw [List.getElem_range] at hba
      exact hba ▸ EqvGen.refl b
  | append_singleton links link ih =>
      obtain ⟨x, y⟩ := link
      obtain ⟨hx, hy⟩ := hlinks (x, y) List.mem_concat_self
      have hold : ∀ {v w : Nat}, v < count →
          (components count links)[v]? = (components count links)[w]? →
          EqvGen (Linked (links ++ [(x, y)])) v w := by
        intro v w hv hvw
        refine (ih (fun l hl => hlinks l (List.mem_append_left _ hl)) hv hvw).mono ?_
        exact fun _ _ hlink => List.mem_append_left _ hlink
      have hnew : EqvGen (Linked (links ++ [(x, y)])) x y := .rel x y List.mem_concat_self
      rw [components_concat_eq_iff hx hy ha] at h
      rcases h with h | ⟨hax, hby⟩ | ⟨hay, hbx⟩
      · exact hold ha h
      · exact (hold ha hax).trans _ _ _ (hnew.trans _ _ _ (hold hy hby.symm))
      · exact (hold ha hay).trans _ _ _ (hnew.symm _ _ |>.trans _ _ _ (hold hx hbx.symm))

/-- Two nodes have the same label when links, taken in either direction, connect them. -/
theorem components_eq_iff (hlinks : ∀ l ∈ links, l.1 < count ∧ l.2 < count) {a b : Nat}
    (ha : a < count) :
    (components count links)[a]? = (components count links)[b]? ↔ EqvGen (Linked links) a b := by
  refine ⟨eqvGen_of_components_eq hlinks ha, fun h => ?_⟩
  clear ha
  induction h with
  | rel v w h => exact components_eq_of_linked hlinks h
  | refl v => rfl
  | symm v w _ ih => exact ih.symm
  | trans u v w _ _ ih₁ ih₂ => exact ih₁.trans ih₂

theorem labelIn_components_eq_iff (hlinks : ∀ l ∈ links, l.1 < count ∧ l.2 < count) {a b : Nat}
    (ha : a < count) (hb : b < count) :
    labelIn (components count links) a = labelIn (components count links) b
      ↔ EqvGen (Linked links) a b := by
  rw [← components_eq_iff hlinks ha]
  rw [← length_components count links] at ha hb
  simp only [labelIn, List.getElem?_eq_getElem ha, List.getElem?_eq_getElem hb, Option.getD_some,
    Option.some.injEq]

end

end ScriptAtlas.IncludeGraph
