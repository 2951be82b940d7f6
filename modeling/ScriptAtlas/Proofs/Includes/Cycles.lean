import ScriptAtlas.Proofs.Includes.Components
import ScriptAtlas.Proofs.Includes.CycleSearch
import ScriptAtlas.Proofs.PathMap
import ScriptAtlas.Proofs.Sorting

/-! # Cycles — what the include graph reports

    The search works on numbers of nodes; files are what the reader of a report
    sees.  In the graph of any scripts no two nodes are the same file, and every
    edge starts at a node and leads to one or nowhere (`isNumbered_build`), so a
    file has at most one number and edges between files are links between their
    numbers (`leads_iff_linked`, `connected_iff`).  What the search records for
    numbers then holds for files (`build_reportsCircuits`). -/

namespace ScriptAtlas

open Relation

namespace IncludeGraph

/-- Whether an include that names a file leads from one file to another. -/
def Leads (g : IncludeGraph) (p q : Path) : Prop :=
  ∃ e ∈ g.edges, e.source.same p = true ∧ ∃ t, e.target = some t ∧ t.same q = true

/-- Whether includes, taken in either direction, connect two files. -/
def Connected (g : IncludeGraph) : Path → Path → Prop :=
  EqvGen fun p q => p.same q = true ∨ g.Leads p q

/-- Every file has one number, and every edge that leads somewhere has numbers at its ends. -/
structure IsNumbered (g : IncludeGraph) : Prop where
  distinct : g.nodes.Pairwise fun p q => p.key ≠ q.key
  source : ∀ e ∈ g.edges, ∃ p ∈ g.nodes, p.key = e.source.key
  target : ∀ e ∈ g.edges, ∀ t, e.target = some t → ∃ p ∈ g.nodes, p.key = t.key

theorem isNumbered_build (root : Path) (disk : Option Disk) (maxDepth : Nat)
    (sources : List Source) : IsNumbered (build root disk maxDepth sources) := by
  refine ⟨(distinctBy_go_pairwise Path.key [] _).2, ?_, ?_⟩
  · intro e he
    obtain ⟨s, hs, he⟩ := List.mem_flatMap.mp he
    obtain ⟨i, -, rfl⟩ := List.mem_map.mp he
    refine (exists_mem_distinctBy_go Path.key ?_).resolve_left List.not_mem_nil
    exact List.mem_append_left _ (List.mem_map.mpr ⟨s, hs, rfl⟩)
  · intro e he t ht
    refine (exists_mem_distinctBy_go Path.key ?_).resolve_left List.not_mem_nil
    exact List.mem_append_right _ (List.mem_filterMap.mpr ⟨e, he, ht⟩)

/-! ## Files and their numbers -/

/-- Whether a number is that of a file, in any spelling. -/
def Names (g : IncludeGraph) (i : Nat) (p : Path) : Prop :=
  ∃ q, g.nodes[i]? = some q ∧ q.key = p.key

/-- The spelling of a node. -/
def spelling (g : IncludeGraph) (i : Nat) : Path := g.nodes[i]?.getD ⟨[]⟩

section

variable {g : IncludeGraph} {i j : Nat} {p q : Path}

theorem Names.bound (h : g.Names i p) : i < g.nodes.length := by
  obtain ⟨r, hr, -⟩ := h
  exact (List.getElem?_eq_some_iff.mp hr).1

theorem Names.congr (h : g.Names i p) (hkey : p.key = q.key) : g.Names i q := by
  obtain ⟨r, hr, hrp⟩ := h
  exact ⟨r, hr, hrp.trans hkey⟩

theorem Names.key_eq (hp : g.Names i p) (hq : g.Names i q) : p.key = q.key := by
  obtain ⟨r, hr, hrp⟩ := hp
  obtain ⟨r', hr', hrq⟩ := hq
  obtain rfl := Option.some.inj (hr.symm.trans hr')
  exact hrp.symm.trans hrq

theorem names_spelling (hi : i < g.nodes.length) : g.Names i (g.spelling i) := by
  refine ⟨g.nodes[i], List.getElem?_eq_getElem hi, ?_⟩
  rw [spelling, List.getElem?_eq_getElem hi]
  rfl

/-- The paths of nodes are their spellings. -/
theorem pathsOf_eq_map {l : List Nat} (h : ∀ v ∈ l, v < g.nodes.length) :
    g.pathsOf l = l.map g.spelling := by
  rw [pathsOf, ← List.filterMap_eq_map]
  refine List.filterMap_congr fun v hv => ?_
  rw [Function.comp_apply, spelling, List.getElem?_eq_getElem (h v hv)]
  rfl

theorem exists_names (h : ∃ q ∈ g.nodes, q.key = p.key) : ∃ i, g.Names i p := by
  obtain ⟨q, hq, hkey⟩ := h
  obtain ⟨i, hi⟩ := List.mem_iff_getElem?.mp hq
  exact ⟨i, q, hi, hkey⟩

theorem mem_ends?_iff {e : Edge} :
    g.ends? e = some (i, j) ↔ g.indexOf? e.source = some i
      ∧ ∃ t, e.target = some t ∧ g.indexOf? t = some j := by
  simp only [ends?, Option.bind_eq_bind, Option.bind_eq_some_iff, Option.pure_def,
    Option.some.injEq, Prod.mk.injEq]
  constructor
  · rintro ⟨i', hi, t, ht, j', hj, rfl, rfl⟩
    exact ⟨hi, t, ht, hj⟩
  · rintro ⟨hi, t, ht, hj⟩
    exact ⟨i, hi, t, ht, j, hj, rfl, rfl⟩

namespace IsNumbered

variable (hg : IsNumbered g)

include hg

/-- A file has one number. -/
theorem eq_of_names (hi : g.Names i p) (hj : g.Names j p) : i = j := by
  obtain ⟨q, hq, hqp⟩ := hi
  obtain ⟨r, hr, hrp⟩ := hj
  obtain ⟨hi, rfl⟩ := List.getElem?_eq_some_iff.mp hq
  obtain ⟨hj, rfl⟩ := List.getElem?_eq_some_iff.mp hr
  have hkey := hqp.trans hrp.symm
  have hdistinct := List.pairwise_iff_getElem.mp hg.distinct
  rcases Nat.lt_trichotomy i j with hlt | heq | hlt
  · exact absurd hkey (hdistinct i j hi hj hlt)
  · exact heq
  · exact absurd hkey.symm (hdistinct j i hj hi hlt)

theorem indexOf?_eq_some_iff : g.indexOf? p = some i ↔ g.Names i p := by
  have hnames : ∀ k, g.indexOf? p = some k → g.Names k p := by
    intro k hk
    obtain ⟨hlt, hsame, -⟩ := List.findIdx?_eq_some_iff_getElem.mp hk
    exact ⟨g.nodes[k], List.getElem?_eq_getElem hlt, Path.same_iff.mp hsame⟩
  refine ⟨hnames i, fun hi => ?_⟩
  cases hindex : g.indexOf? p with
  | some k => exact congrArg some (hg.eq_of_names (hnames k hindex) hi)
  | none =>
      obtain ⟨q, hq, hkey⟩ := hi
      have hnone := List.findIdx?_eq_none_iff.mp hindex q (List.mem_of_getElem? hq)
      exact absurd (Path.same_iff.mpr hkey) (by rw [hnone]; exact Bool.false_ne_true)

/-- Edges between files are links between their numbers. -/
theorem leads_iff_linked (hi : g.Names i p) (hj : g.Names j q) :
    g.Leads p q ↔ Linked g.links i j := by
  constructor
  · rintro ⟨e, he, hsource, t, ht, htarget⟩
    refine List.mem_filterMap.mpr ⟨e, he, mem_ends?_iff.mpr ⟨?_, t, ht, ?_⟩⟩
    · exact hg.indexOf?_eq_some_iff.mpr (hi.congr (Path.same_iff.mp hsource).symm)
    · exact hg.indexOf?_eq_some_iff.mpr (hj.congr (Path.same_iff.mp htarget).symm)
  · intro hlink
    obtain ⟨e, he, hends⟩ := List.mem_filterMap.mp hlink
    obtain ⟨hsource, t, ht, htarget⟩ := mem_ends?_iff.mp hends
    refine ⟨e, he, Path.same_iff.mpr ?_, t, ht, Path.same_iff.mpr ?_⟩
    · exact (hg.indexOf?_eq_some_iff.mp hsource).key_eq hi
    · exact (hg.indexOf?_eq_some_iff.mp htarget).key_eq hj

/-- Both ends of an edge have numbers. -/
theorem exists_names_of_leads (h : g.Leads p q) :
    ∃ i j, g.Names i p ∧ g.Names j q ∧ Linked g.links i j := by
  obtain ⟨e, he, hsource, t, ht, htarget⟩ := h
  obtain ⟨i, hi⟩ := exists_names (hg.source e he)
  obtain ⟨j, hj⟩ := exists_names (hg.target e he t ht)
  have hi' := hi.congr (Path.same_iff.mp hsource)
  have hj' := hj.congr (Path.same_iff.mp htarget)
  exact ⟨i, j, hi', hj', (hg.leads_iff_linked hi' hj').mp ⟨e, he, hsource, t, ht, htarget⟩⟩

/-- The ends of a link are numbers of nodes. -/
theorem bound_of_linked (h : Linked g.links i j) : i < g.nodes.length ∧ j < g.nodes.length := by
  obtain ⟨e, -, hends⟩ := List.mem_filterMap.mp h
  obtain ⟨hsource, t, -, htarget⟩ := mem_ends?_iff.mp hends
  exact ⟨(hg.indexOf?_eq_some_iff.mp hsource).bound, (hg.indexOf?_eq_some_iff.mp htarget).bound⟩

/-- A link is an edge between its nodes as they are spelled. -/
theorem leads_spelling (h : Linked g.links i j) : g.Leads (g.spelling i) (g.spelling j) := by
  obtain ⟨hi, hj⟩ := hg.bound_of_linked h
  exact (hg.leads_iff_linked (names_spelling hi) (names_spelling hj)).mpr h

/-- Connected files are the same, or have connected numbers. -/
theorem same_or_eqvGen_of_connected (h : g.Connected p q) :
    p.key = q.key ∨ ∃ i j, g.Names i p ∧ g.Names j q ∧ EqvGen (Linked g.links) i j := by
  induction h with
  | rel p q h =>
      rcases h with hsame | hleads
      · exact Or.inl (Path.same_iff.mp hsame)
      · obtain ⟨i, j, hi, hj, hlink⟩ := hg.exists_names_of_leads hleads
        exact Or.inr ⟨i, j, hi, hj, .rel i j hlink⟩
  | refl p => exact Or.inl rfl
  | symm p q _ ih =>
      rcases ih with hkey | ⟨i, j, hi, hj, heqv⟩
      · exact Or.inl hkey.symm
      · exact Or.inr ⟨j, i, hj, hi, heqv.symm⟩
  | trans p r q _ _ ih₁ ih₂ =>
      rcases ih₁ with hkey | ⟨i, k, hi, hk, heqv⟩
      · rcases ih₂ with hkey' | ⟨k', j, hk', hj, heqv'⟩
        · exact Or.inl (hkey.trans hkey')
        · exact Or.inr ⟨k', j, hk'.congr hkey.symm, hj, heqv'⟩
      · rcases ih₂ with hkey' | ⟨k', j, hk', hj, heqv'⟩
        · exact Or.inr ⟨i, k, hi, hk.congr hkey', heqv⟩
        · obtain rfl := hg.eq_of_names hk hk'
          exact Or.inr ⟨i, j, hi, hj, heqv.trans _ _ _ heqv'⟩

/-- Files are connected when their numbers are. -/
theorem connected_iff (hi : g.Names i p) (hj : g.Names j q) :
    g.Connected p q ↔ EqvGen (Linked g.links) i j := by
  constructor
  · intro h
    rcases hg.same_or_eqvGen_of_connected h with hkey | ⟨i', j', hi', hj', heqv⟩
    · obtain rfl := hg.eq_of_names (hi.congr hkey) hj
      exact .refl i
    · obtain rfl := hg.eq_of_names hi' hi
      obtain rfl := hg.eq_of_names hj' hj
      exact heqv
  · intro h
    have hspelling : g.Connected (g.spelling i) (g.spelling j) := by
      clear hi hj
      induction h with
      | rel i j h => exact .rel _ _ (Or.inr (hg.leads_spelling h))
      | refl i => exact .refl _
      | symm i j _ ih => exact ih.symm
      | trans i k j _ _ ih₁ ih₂ => exact ih₁.trans _ _ _ ih₂
    have hp : g.Connected p (g.spelling i) :=
      .rel _ _ (Or.inl (Path.same_iff.mpr (hi.key_eq (names_spelling hi.bound))))
    have hq : g.Connected (g.spelling j) q :=
      .rel _ _ (Or.inl (Path.same_iff.mpr ((names_spelling hj.bound).key_eq hj)))
    exact (hp.trans _ _ _ hspelling).trans _ _ _ hq

/-- A walk between files is a walk between their numbers. -/
theorem transGen_linked (h : TransGen g.Leads p q) :
    ∃ i j, g.Names i p ∧ g.Names j q ∧ TransGen (Linked g.links) i j := by
  induction h with
  | single h =>
      obtain ⟨i, j, hi, hj, hlink⟩ := hg.exists_names_of_leads h
      exact ⟨i, j, hi, hj, .single hlink⟩
  | tail _ h ih =>
      obtain ⟨i, k, hi, hk, hwalk⟩ := ih
      obtain ⟨k', j, hk', hj, hlink⟩ := hg.exists_names_of_leads h
      obtain rfl := hg.eq_of_names hk hk'
      exact ⟨i, j, hi, hj, hwalk.tail hlink⟩

end IsNumbered

end

/-! ## The cycles reported -/

theorem step_successors_iff {g : IncludeGraph} {links : List (Nat × Nat)} {a b : Nat} :
    CycleSearch.Step (g.successors links) a b ↔ Linked links a b := by
  rw [CycleSearch.Step, successors, mem_sortBy, List.mem_eraseDups]
  simp [Linked]

/-- What the search records for numbers: circuits, of which no two are connected, and one wherever
    there is a circuit. -/
theorem IsNumbered.cycleNodes_spec {g : IncludeGraph} (hg : IsNumbered g) :
    (∀ c ∈ g.cycleNodes, IsCircuit (Linked g.links) c ∧ c.Nodup ∧ ∀ v ∈ c, v < g.nodes.length)
    ∧ (g.cycleNodes.Pairwise fun c d => ∀ a ∈ c, ∀ b ∈ d, ¬ EqvGen (Linked g.links) a b)
    ∧ ∀ v, TransGen (Linked g.links) v v →
        ∃ c ∈ g.cycleNodes, ∀ a ∈ c, EqvGen (Linked g.links) v a := by
  have hlabel : ∀ {a b}, a < g.nodes.length → b < g.nodes.length →
      (labelIn (components g.nodes.length g.links) a = labelIn (components g.nodes.length g.links) b
        ↔ EqvGen (Linked g.links) a b) :=
    labelIn_components_eq_iff fun l hl => hg.bound_of_linked hl
  have hsuccessors : ∀ v < g.nodes.length, ∀ w ∈ g.successors g.links v, w < g.nodes.length
      ∧ labelIn (components g.nodes.length g.links) w
          = labelIn (components g.nodes.length g.links) v := by
    intro v hv w hw
    have hlink : Linked g.links v w := step_successors_iff.mp hw
    have hbound := (hg.bound_of_linked hlink).2
    exact ⟨hbound, ((hlabel hv hbound).mpr (.rel v w hlink)).symm⟩
  have hstarts : ∀ v, v ∈ sortBy g.nodeOrder (List.range g.nodes.length) ↔ v < g.nodes.length := by
    intro v
    rw [mem_sortBy, List.mem_range]
  obtain ⟨hsound, hcomplete⟩ := CycleSearch.ofStarts_spec hsuccessors hstarts
  have hstep : CycleSearch.Step (g.successors g.links) = Linked g.links :=
    funext fun a => funext fun b => propext step_successors_iff
  have hcircuit := hsound.circuit
  rw [hstep] at hcircuit hcomplete
  refine ⟨fun c hc => hcircuit c (List.mem_reverse.mp hc), ?_, ?_⟩
  · -- connected cycles would have been reported under one label
    refine List.pairwise_reverse.mpr (hsound.pairwise.imp_of_mem ?_)
    intro d c hd hc hne a ha b hb heqv
    obtain ⟨hd', -, hdbound⟩ := hcircuit d hd
    obtain ⟨hc', -, hcbound⟩ := hcircuit c hc
    have hdfirst := List.head?_eq_some_head hd'.ne_nil
    have hcfirst := List.head?_eq_some_head hc'.ne_nil
    refine hne ?_
    rw [hdfirst, hcfirst, Option.map_some, Option.map_some,
      (hlabel (hdbound _ (List.head_mem _)) (hcbound _ (List.head_mem _))).mpr]
    exact ((hd'.eqvGen_of_mem hdfirst hb).trans _ _ _ heqv.symm).trans _ _ _
      (hc'.eqvGen_of_mem hcfirst ha).symm
  · intro v hv
    obtain ⟨w, hlink, -⟩ := TransGen.head'_iff.mp hv
    have hbound := (hg.bound_of_linked hlink).1
    obtain ⟨c, hc, first, hfirst, hsame⟩ := hsound.exists_circuit (hcomplete v hbound hv)
    obtain ⟨hc', -, hcbound⟩ := hcircuit c hc
    refine ⟨c, List.mem_reverse.mpr hc, fun a ha => ?_⟩
    have hfirst' := (hlabel hbound (hcbound first (List.mem_of_mem_head? hfirst))).mp hsame.symm
    exact hfirst'.trans _ _ _ (hc'.eqvGen_of_mem hfirst ha)

/-- The cycles are those of the search, as their nodes are spelled. -/
theorem IsNumbered.cycles_eq {g : IncludeGraph} (hg : IsNumbered g) :
    g.cycles = g.cycleNodes.map fun c => c.map g.spelling := by
  refine List.map_congr_left fun c hc => ?_
  exact pathsOf_eq_map (hg.cycleNodes_spec.1 c hc).2.2

/-- A cycle goes through files of the graph, each once, along edges and back to its start. -/
theorem IsNumbered.isCircuit_of_mem_cycles {g : IncludeGraph} (hg : IsNumbered g) {c : List Path}
    (hc : c ∈ g.cycles) : IsCircuit g.Leads c ∧ (c.Pairwise fun p q => p.same q = false)
      ∧ ∀ p ∈ c, p ∈ g.nodes := by
  rw [hg.cycles_eq] at hc
  obtain ⟨ns, hns, rfl⟩ := List.mem_map.mp hc
  obtain ⟨hcircuit, hnodup, hbound⟩ := hg.cycleNodes_spec.1 ns hns
  refine ⟨⟨?_, ?_, ?_⟩, ?_, ?_⟩
  · rw [ne_eq, List.map_eq_nil_iff]
    exact hcircuit.ne_nil
  · exact (List.isChain_map _).mpr (hcircuit.chain.imp fun _ _ => hg.leads_spelling)
  · intro last hlast first hfirst
    rw [List.getLast?_map] at hlast
    rw [List.head?_map] at hfirst
    obtain ⟨i, hi, rfl⟩ := Option.map_eq_some_iff.mp hlast
    obtain ⟨j, hj, rfl⟩ := Option.map_eq_some_iff.mp hfirst
    exact hg.leads_spelling (hcircuit.closed i hi j hj)
  · refine List.pairwise_map.mpr (hnodup.imp_of_mem ?_)
    intro i j hi hj hne
    rw [Bool.eq_false_iff]
    intro hsame
    have hi' := (names_spelling (hbound i hi)).congr (Path.same_iff.mp hsame)
    exact hne (hg.eq_of_names hi' (names_spelling (hbound j hj)))
  · intro p hp
    obtain ⟨i, hi, rfl⟩ := List.mem_map.mp hp
    rw [spelling, List.getElem?_eq_getElem (hbound i hi)]
    exact List.getElem_mem _

/-- No two cycles are connected. -/
theorem IsNumbered.cycles_apart {g : IncludeGraph} (hg : IsNumbered g) :
    g.cycles.Pairwise fun c d => ∀ p ∈ c, ∀ q ∈ d, ¬ g.Connected p q := by
  obtain ⟨hcircuit, hapart, -⟩ := hg.cycleNodes_spec
  rw [hg.cycles_eq]
  refine List.pairwise_map.mpr (hapart.imp_of_mem ?_)
  intro c d hc hd hne p hp q hq hconnected
  obtain ⟨i, hi, rfl⟩ := List.mem_map.mp hp
  obtain ⟨j, hj, rfl⟩ := List.mem_map.mp hq
  have hi' := names_spelling ((hcircuit c hc).2.2 i hi)
  have hj' := names_spelling ((hcircuit d hd).2.2 j hj)
  exact hne i hi j hj ((hg.connected_iff hi' hj').mp hconnected)

/-- Every circuit is connected to a cycle. -/
theorem IsNumbered.exists_cycle {g : IncludeGraph} (hg : IsNumbered g) {p : Path}
    (hp : TransGen g.Leads p p) : ∃ c ∈ g.cycles, ∀ q ∈ c, g.Connected p q := by
  obtain ⟨hcircuit, -, hcomplete⟩ := hg.cycleNodes_spec
  obtain ⟨i, j, hi, hj, hwalk⟩ := hg.transGen_linked hp
  obtain rfl := hg.eq_of_names hi hj
  obtain ⟨ns, hns, hconnected⟩ := hcomplete i hwalk
  rw [hg.cycles_eq]
  refine ⟨_, List.mem_map.mpr ⟨ns, hns, rfl⟩, ?_⟩
  intro q hq
  obtain ⟨k, hk, rfl⟩ := List.mem_map.mp hq
  exact (hg.connected_iff hi (names_spelling ((hcircuit ns hns).2.2 k hk))).mpr (hconnected k hk)

/-- What the cycles of a graph say about its files. -/
structure ReportsCircuits (g : IncludeGraph) : Prop where
  /-- A cycle goes through files of the graph, each once, along edges and back to its start. -/
  circuit : ∀ c ∈ g.cycles, IsCircuit g.Leads c ∧ (c.Pairwise fun p q => p.same q = false)
    ∧ ∀ p ∈ c, p ∈ g.nodes
  /-- No two cycles are connected. -/
  apart : g.cycles.Pairwise fun c d => ∀ p ∈ c, ∀ q ∈ d, ¬ g.Connected p q
  /-- A file that is connected to a circuit is connected to exactly one cycle. -/
  reported : ∀ p q, g.Connected p q → TransGen g.Leads q q →
    ∃! c, c ∈ g.cycles ∧ ∀ r ∈ c, g.Connected p r
  /-- There are no cycles when no file leads back to itself. -/
  acyclic : g.cycles = [] ↔ ∀ p, ¬ TransGen g.Leads p p

/-- **CYCLES**: the cycles of the include graph of any scripts are circuits of files, one for each
    connected part that has a circuit. -/
theorem build_reportsCircuits (root : Path) (disk : Option Disk) (maxDepth : Nat)
    (sources : List Source) : ReportsCircuits (build root disk maxDepth sources) := by
  have hg := isNumbered_build root disk maxDepth sources
  generalize build root disk maxDepth sources = g at hg
  refine ⟨fun _ => hg.isCircuit_of_mem_cycles, hg.cycles_apart, ?_, ?_⟩
  · intro p q hpq hq
    obtain ⟨c, hc, hconnected⟩ := hg.exists_cycle hq
    refine ⟨c, ⟨hc, fun r hr => hpq.trans _ _ _ (hconnected r hr)⟩, ?_⟩
    rintro d ⟨hd, hconnected'⟩
    -- two cycles connected to one file are connected to each other
    by_contra hne
    have hsymmetric : Std.Symm fun c d : List Path => ∀ p ∈ c, ∀ q ∈ d, ¬ g.Connected p q :=
      ⟨fun c d h p hp q hq hpq => h q hq p hp hpq.symm⟩
    obtain ⟨r, hr⟩ := List.exists_mem_of_ne_nil d (hg.isCircuit_of_mem_cycles hd).1.ne_nil
    obtain ⟨r', hr'⟩ := List.exists_mem_of_ne_nil c (hg.isCircuit_of_mem_cycles hc).1.ne_nil
    refine hg.cycles_apart.forall hd hc hne r hr r' hr' ?_
    exact (hconnected' r hr).symm.trans _ _ _ (hpq.trans _ _ _ (hconnected r' hr'))
  · constructor
    · intro hnone p hp
      obtain ⟨c, hc, -⟩ := hg.exists_cycle hp
      rw [hnone] at hc
      exact nomatch hc
    · intro hacyclic
      refine List.eq_nil_iff_forall_not_mem.mpr fun c hc => ?_
      obtain ⟨first, -, hcircuit⟩ := (hg.isCircuit_of_mem_cycles hc).1.exists_transGen
      exact hacyclic first hcircuit

/-- Two scripts that include themselves have a cycle each, but one cycle between them when both also
    include a file on the disk. -/
example :
    let script (p t : String) : Source := ⟨⟨p.toList⟩, t.toList, .read ⟨p.toList⟩ t.toList⟩
    let sources := [script "/w/a.scr" "#include \"a.scr\"\n#include \"u.txt\"",
      script "/w/b.scr" "#include \"b.scr\"\n#include \"u.txt\""]
    let disk := Disk.empty.write ["w".toList, "u.txt".toList] (.file [])
    (build ⟨"/w".toList⟩ none 32 sources).cycles
        = [[⟨"/w/a.scr".toList⟩], [⟨"/w/b.scr".toList⟩]]
      ∧ (build ⟨"/w".toList⟩ (some disk) 32 sources).cycles = [[⟨"/w/a.scr".toList⟩]] := by
  decide

end IncludeGraph

end ScriptAtlas
