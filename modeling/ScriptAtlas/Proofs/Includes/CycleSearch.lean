import ScriptAtlas.Includes.Cycle
import Mathlib.Data.List.Chain
import Mathlib.Data.List.Nodup
import Mathlib.Data.List.Perm.Subperm

/-! # Cycle search — every component with a circuit is reported, and once

    The search is a depth-first one over numbered nodes.  The way to the node
    that it stands on is a path without repetitions, so a successor on the way
    closes a circuit (`isCircuit_cycleFrom`), and the room for the way never
    runs out.  What the search leaves behind is settled: its label has been
    reported, or no endless walk starts at it (`Settled`).  The route:

    * reporting keeps the records sound (`IsSound.report`);
    * a visit settles the node that it starts from (`Keeps.visit`), by induction
      on the room and, within a node, over its successors;
    * hence after visits from every node each circuit has a reported label
      (`ofStarts_spec`). -/

namespace ScriptAtlas.IncludeGraph

/-- A list whose neighbours are joined by steps, and its last with its first. -/
structure IsCircuit {α : Type} (step : α → α → Prop) (c : List α) : Prop where
  ne_nil : c ≠ []
  chain : c.IsChain step
  closed : ∀ last ∈ c.getLast?, ∀ first ∈ c.head?, step last first

/-- The first of a circuit leads back to itself. -/
theorem IsCircuit.exists_transGen {α : Type} {step : α → α → Prop} {c : List α}
    (h : IsCircuit step c) :
    ∃ first, c.head? = some first ∧ Relation.TransGen step first first := by
  have hfirst := List.head?_eq_some_head h.ne_nil
  have hlast := List.getLast?_eq_some_getLast h.ne_nil
  refine ⟨_, hfirst, ?_⟩
  have hwalk := List.relationReflTransGen_of_exists_isChain c h.chain h.ne_nil
  exact Relation.TransGen.tail' hwalk (h.closed _ hlast _ hfirst)

/-- The first of a circuit is connected to all of it. -/
theorem IsCircuit.eqvGen_of_mem {α : Type} {step : α → α → Prop} {c : List α} {first a : α}
    (h : IsCircuit step c) (hfirst : c.head? = some first) (ha : a ∈ c) :
    Relation.EqvGen step first a := by
  refine h.chain.induction (fun v => Relation.EqvGen step first v) c ?_ ?_ a ha
  · intro v w hstep hv
    exact hv.trans _ _ _ (.rel v w hstep)
  · intro hne
    rw [List.head?_eq_some_head hne] at hfirst
    exact Option.some.inj hfirst ▸ .refl _

namespace CycleSearch

variable (successors : Nat → List Nat) (label : Nat → Nat) (count : Nat)

/-- Whether an edge leads from one node to another. -/
def Step (a b : Nat) : Prop := b ∈ successors a

/-- A way that the search may stand on, given from its end: a path without repetitions. -/
structure IsWay (way : List Nat) : Prop where
  nodup : way.Nodup
  chain : way.IsChain fun a b => Step successors b a
  bound : ∀ v ∈ way, v < count

/-- The circuits on record are circuits, one for each label reported. -/
structure IsSound (s : CycleSearch) : Prop where
  circuit : ∀ c ∈ s.cycles, IsCircuit (Step successors) c ∧ c.Nodup ∧ ∀ v ∈ c, v < count
  reported : s.cycles.map (fun c => c.head?.map label) = s.reported.map some
  once : s.reported.Nodup

/-- The label of a node has been reported, or every walk from it ends. -/
def Settled (s : CycleSearch) (v : Nat) : Prop :=
  label v ∈ s.reported ∨ Acc (fun b a => Step successors a b) v

/-- What holds while the search stands at the end of a way. -/
structure Keeps (way : List Nat) (s : CycleSearch) : Prop where
  sound : IsSound successors label count s
  visited : ∀ v ∈ way, v ∈ s.visited
  settled : ∀ v ∈ s.visited, v ∈ way ∨ Settled successors label s v

/-- The search goes on and forgets nothing. -/
structure Extends (s s' : CycleSearch) : Prop where
  visited : ∀ v ∈ s.visited, v ∈ s'.visited
  reported : ∀ l ∈ s.reported, l ∈ s'.reported

variable {successors label count}

theorem Extends.refl (s : CycleSearch) : Extends s s := ⟨fun _ => id, fun _ => id⟩

theorem Extends.trans {s₁ s₂ s₃ : CycleSearch} (h : Extends s₁ s₂) (h' : Extends s₂ s₃) :
    Extends s₁ s₃ :=
  ⟨fun v hv => h'.visited v (h.visited v hv), fun l hl => h'.reported l (h.reported l hl)⟩

theorem Settled.mono {s s' : CycleSearch} {v : Nat} (h : Settled successors label s v)
    (hext : Extends s s') : Settled successors label s' v := by
  rcases h with h | h
  · exact Or.inl (hext.reported _ h)
  · exact Or.inr h

/-- No two circuits on record have the same label. -/
theorem IsSound.pairwise {s : CycleSearch} (hs : IsSound successors label count s) :
    s.cycles.Pairwise fun c d => c.head?.map label ≠ d.head?.map label := by
  have hnodup : (s.reported.map some).Nodup := hs.once.map fun _ _ => Option.some.inj
  rw [← hs.reported] at hnodup
  exact List.pairwise_map.mp hnodup

/-- Every label reported is that of a circuit on record. -/
theorem IsSound.exists_circuit {s : CycleSearch} (hs : IsSound successors label count s) {l : Nat}
    (hl : l ∈ s.reported) : ∃ c ∈ s.cycles, ∃ first, c.head? = some first ∧ label first = l := by
  have hmem : some l ∈ s.reported.map some := List.mem_map.mpr ⟨l, hl, rfl⟩
  rw [← hs.reported] at hmem
  obtain ⟨c, hc, hhead⟩ := List.mem_map.mp hmem
  exact ⟨c, hc, Option.map_eq_some_iff.mp hhead⟩

/-! ## Reporting -/

/-- The way back to a node on it starts with that node. -/
theorem cycleFrom_eq {before after : List Nat} {back : Nat}
    (hnodup : (before ++ back :: after).Nodup) :
    cycleFrom back (before ++ back :: after) = back :: before.reverse := by
  have hafter : ∀ v ∈ after.reverse, (v != back) = true := by
    intro v hv
    rw [bne_iff_ne]
    rintro rfl
    exact (List.nodup_cons.mp (List.nodup_append.mp hnodup).2.1).1 (List.mem_reverse.mp hv)
  have hback : (back != back) = false := bne_self_eq_false back
  rw [cycleFrom, List.reverse_append, List.reverse_cons, List.append_assoc,
    List.dropWhile_append_of_pos hafter, List.singleton_append, List.dropWhile_cons, hback]
  rfl

/-- An edge from the end of a way back to a node on it closes a circuit. -/
theorem isCircuit_cycleFrom {way : List Nat} {back : Nat} (hway : IsWay successors count way)
    (hback : back ∈ way) (hstep : ∀ node ∈ way.head?, Step successors node back) :
    IsCircuit (Step successors) (cycleFrom back way) ∧ (cycleFrom back way).Nodup
      ∧ (∀ v ∈ cycleFrom back way, v < count) ∧ (cycleFrom back way).head? = some back := by
  -- the circuit is the part of the way from its end to `back`, turned round
  obtain ⟨before, after, rfl⟩ := List.append_of_mem hback
  have hcycle : cycleFrom back (before ++ back :: after) = (before ++ [back]).reverse := by
    rw [cycleFrom_eq hway.nodup, List.reverse_concat]
  rw [List.append_cons] at hway hstep
  rw [hcycle]
  refine ⟨⟨?_, ?_, ?_⟩, ?_, ?_, ?_⟩
  · simp
  · rw [List.isChain_reverse]
    exact hway.chain.left_of_append
  · intro last hlast first hfirst
    rw [List.getLast?_reverse] at hlast
    rw [List.head?_reverse, List.getLast?_concat] at hfirst
    obtain rfl := Option.some.inj hfirst
    exact hstep last (List.mem_head?_append_of_mem_head? hlast)
  · rw [List.nodup_reverse]
    exact (List.nodup_append.mp hway.nodup).1
  · intro v hv
    exact hway.bound v (List.mem_append_left _ (List.mem_reverse.mp hv))
  · rw [List.head?_reverse, List.getLast?_concat]

/-- A report keeps the records sound, and settles its node. -/
theorem Keeps.report {way : List Nat} {back : Nat} {s : CycleSearch}
    (hs : Keeps successors label count way s) (hway : IsWay successors count way)
    (hback : back ∈ way) (hstep : ∀ node ∈ way.head?, Step successors node back) :
    Keeps successors label count way (s.report label back way)
      ∧ Extends s (s.report label back way)
      ∧ Settled successors label (s.report label back way) back := by
  unfold CycleSearch.report
  by_cases hreported : label back ∈ s.reported
  · rw [if_pos (List.contains_iff_mem.mpr hreported)]
    exact ⟨hs, .refl s, Or.inl hreported⟩
  · rw [if_neg (fun h => hreported (List.contains_iff_mem.mp h))]
    obtain ⟨hcircuit, hnodup, hbound, hhead⟩ := isCircuit_cycleFrom hway hback hstep
    have hext : Extends s { s with
        reported := label back :: s.reported
        cycles := cycleFrom back way :: s.cycles } :=
      ⟨fun _ => id, fun _ => List.mem_cons_of_mem _⟩
    refine ⟨⟨⟨?_, ?_, ?_⟩, hs.visited, ?_⟩, hext, Or.inl List.mem_cons_self⟩
    · intro c hc
      rcases List.mem_cons.mp hc with rfl | hc
      · exact ⟨hcircuit, hnodup, hbound⟩
      · exact hs.sound.circuit c hc
    · rw [List.map_cons, List.map_cons, hhead, hs.sound.reported]
      rfl
    · exact List.nodup_cons.mpr ⟨hreported, hs.sound.once⟩
    · intro v hv
      exact (hs.settled v hv).imp_right fun h => h.mono hext

/-! ## Going from node to node -/

/-- A way without repetitions has no more nodes than there are. -/
theorem IsWay.length_le {way : List Nat} (h : IsWay successors count way) : way.length ≤ count := by
  have hsub : way ⊆ List.range count := fun v hv => List.mem_range.mpr (h.bound v hv)
  have hlength := (List.subperm_of_subset h.nodup hsub).length_le
  rwa [List.length_range] at hlength

/-- The search goes one node further. -/
theorem Keeps.enter {next : Nat} {way : List Nat} {s : CycleSearch}
    (hs : Keeps successors label count way s) :
    Keeps successors label count (next :: way) { s with visited := next :: s.visited } := by
  refine ⟨⟨hs.sound.circuit, hs.sound.reported, hs.sound.once⟩, ?_, ?_⟩
  · intro v hv
    rcases List.mem_cons.mp hv with rfl | hv
    · exact List.mem_cons_self
    · exact List.mem_cons_of_mem _ (hs.visited v hv)
  · intro v hv
    rcases List.mem_cons.mp hv with rfl | hv
    · exact Or.inl List.mem_cons_self
    · exact (hs.settled v hv).imp_left (List.mem_cons_of_mem _)

/-- The search comes back from a settled node. -/
theorem Keeps.leave {node : Nat} {way : List Nat} {s : CycleSearch}
    (hs : Keeps successors label count (node :: way) s)
    (hsettled : Settled successors label s node) : Keeps successors label count way s := by
  refine ⟨hs.sound, fun v hv => hs.visited v (List.mem_cons_of_mem _ hv), ?_⟩
  intro v hv
  rcases hs.settled v hv with hway | hv
  · rcases List.mem_cons.mp hway with rfl | hway
    · exact Or.inr hsettled
    · exact Or.inl hway
  · exact Or.inr hv

/-- A node is settled when its successors are. -/
theorem settled_of_successors {s : CycleSearch} {node : Nat}
    (hlabel : ∀ w ∈ successors node, label w = label node)
    (h : ∀ w ∈ successors node, Settled successors label s w) :
    Settled successors label s node := by
  by_cases hreported : label node ∈ s.reported
  · exact Or.inl hreported
  · refine Or.inr (Acc.intro node ?_)
    intro w hw
    refine (h w hw).resolve_left ?_
    rw [hlabel w hw]
    exact hreported

variable (successors label count) in
/-- What a visit at the end of a way is to do: come back with all that it came to settled. -/
def Explores (visit : List Nat → Nat → CycleSearch → CycleSearch) (way : List Nat) : Prop :=
  ∀ next s, IsWay successors count (next :: way) → Keeps successors label count (next :: way) s →
    Keeps successors label count way (visit way next s) ∧ Extends s (visit way next s)

/-- Turning to a node settles it. -/
theorem Keeps.turnTo {visit : List Nat → Nat → CycleSearch → CycleSearch} {way : List Nat}
    {s : CycleSearch} {next : Nat} (hvisit : Explores successors label count visit way)
    (hway : IsWay successors count way) (hs : Keeps successors label count way s)
    (hnext : next < count) (hstep : ∀ node ∈ way.head?, Step successors node next) :
    Keeps successors label count way (s.turnTo label visit way next)
      ∧ Extends s (s.turnTo label visit way next)
      ∧ Settled successors label (s.turnTo label visit way next) next := by
  unfold CycleSearch.turnTo
  -- a node on the way closes a circuit, one left behind is settled, any other is entered
  by_cases hback : next ∈ way
  · rw [if_pos (List.contains_iff_mem.mpr hback)]
    exact hs.report hway hback hstep
  rw [if_neg (fun h => hback (List.contains_iff_mem.mp h))]
  by_cases hvisited : next ∈ s.visited
  · rw [if_pos (List.contains_iff_mem.mpr hvisited)]
    exact ⟨hs, .refl s, (hs.settled next hvisited).resolve_left hback⟩
  rw [if_neg (fun h => hvisited (List.contains_iff_mem.mp h))]
  have hway' : IsWay successors count (next :: way) := by
    refine ⟨List.nodup_cons.mpr ⟨hback, hway.nodup⟩, ?_, ?_⟩
    · exact List.isChain_cons.mpr ⟨hstep, hway.chain⟩
    · intro v hv
      rcases List.mem_cons.mp hv with rfl | hv
      · exact hnext
      · exact hway.bound v hv
  have hentered : Extends s { s with visited := next :: s.visited } :=
    ⟨fun _ => List.mem_cons_of_mem _, fun _ => id⟩
  obtain ⟨hs', hext⟩ := hvisit next _ hway' hs.enter
  refine ⟨hs', hentered.trans hext, ?_⟩
  exact (hs'.settled next (hext.visited next List.mem_cons_self)).resolve_left hback

/-- Turning to one node after the other settles them all. -/
theorem Keeps.foldl_turnTo {visit : List Nat → Nat → CycleSearch → CycleSearch} {way ws : List Nat}
    {s : CycleSearch} (hvisit : Explores successors label count visit way)
    (hway : IsWay successors count way) (hs : Keeps successors label count way s)
    (hws : ∀ w ∈ ws, w < count ∧ ∀ node ∈ way.head?, Step successors node w) :
    Keeps successors label count way (ws.foldl (CycleSearch.turnTo label visit way) s)
      ∧ Extends s (ws.foldl (CycleSearch.turnTo label visit way) s)
      ∧ ∀ w ∈ ws, Settled successors label (ws.foldl (CycleSearch.turnTo label visit way) s) w := by
  induction ws generalizing s with
  | nil => exact ⟨hs, .refl s, List.forall_mem_nil _⟩
  | cons w ws ih =>
      obtain ⟨hbound, hstep⟩ := hws w List.mem_cons_self
      obtain ⟨hs', hext, hsettled⟩ := hs.turnTo hvisit hway hbound hstep
      obtain ⟨hs'', hext', hrest⟩ := ih hs' fun v hv => hws v (List.mem_cons_of_mem _ hv)
      refine ⟨hs'', hext.trans hext', ?_⟩
      exact List.forall_mem_cons.mpr ⟨hsettled.mono hext', hrest⟩

/-- A visit with room for all nodes that are not on the way settles what it comes to. -/
theorem explores_visit
    (hsuccessors : ∀ v < count, ∀ w ∈ successors v, w < count ∧ label w = label v)
    {room : Nat} {way : List Nat} (hroom : count ≤ room + way.length) :
    Explores successors label count (visit successors label room) way := by
  induction room generalizing way with
  | zero =>
      -- a way through all nodes cannot be longer by one
      intro node s hway _
      have hlength := hway.length_le
      rw [List.length_cons] at hlength
      omega
  | succ room ih =>
      intro node s hway hs
      have hnode := hsuccessors node (hway.bound node List.mem_cons_self)
      have hdeeper :
          Explores successors label count (visit successors label room) (node :: way) := by
        refine ih ?_
        rw [List.length_cons]
        omega
      have hws : ∀ w ∈ successors node,
          w < count ∧ ∀ v ∈ (node :: way).head?, Step successors v w := by
        intro w hw
        refine ⟨(hnode w hw).1, ?_⟩
        rintro v hv
        obtain rfl := Option.some.inj hv
        exact hw
      obtain ⟨hs', hext, hsettled⟩ := hs.foldl_turnTo hdeeper hway hws
      exact ⟨hs'.leave (settled_of_successors (fun w hw => (hnode w hw).2) hsettled), hext⟩

/-- No circuit goes through a node from which every walk ends. -/
theorem not_transGen_of_acc {v : Nat} (h : Acc (fun b a => Step successors a b) v) :
    ¬ Relation.TransGen (Step successors) v v := by
  induction h with
  | intro v _ ih =>
      intro hcircuit
      -- the circuit goes through the next node as well
      obtain ⟨w, hstep, hback⟩ := Relation.TransGen.head'_iff.mp hcircuit
      exact ih w hstep (Relation.TransGen.tail' hback hstep)

/-- Searching from every node records circuits, one for each label that they have, and no circuit
    has a label without a record. -/
theorem ofStarts_spec (hsuccessors : ∀ v < count, ∀ w ∈ successors v, w < count ∧ label w = label v)
    {starts : List Nat} (hstarts : ∀ v, v ∈ starts ↔ v < count) :
    IsSound successors label count (ofStarts successors label count starts)
      ∧ ∀ v < count, Relation.TransGen (Step successors) v v →
          label v ∈ (ofStarts successors label count starts).reported := by
  have hvisit : Explores successors label count (visit successors label count) [] :=
    explores_visit hsuccessors (Nat.le_refl count)
  have hway : IsWay successors count [] := ⟨List.nodup_nil, List.isChain_nil, List.forall_mem_nil _⟩
  have hinit : Keeps successors label count [] ⟨[], [], []⟩ :=
    ⟨⟨List.forall_mem_nil _, rfl, List.nodup_nil⟩, List.forall_mem_nil _, List.forall_mem_nil _⟩
  obtain ⟨hs, -, hsettled⟩ := hinit.foldl_turnTo hvisit hway
    (fun w hw => ⟨(hstarts w).mp hw, fun v hv => nomatch hv⟩)
  refine ⟨hs.sound, ?_⟩
  intro v hv hcircuit
  exact (hsettled v ((hstarts v).mpr hv)).resolve_right fun hacc =>
    not_transGen_of_acc hacc hcircuit

end CycleSearch

end ScriptAtlas.IncludeGraph
