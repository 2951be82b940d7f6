import ScriptAtlas.Proofs.Includes.ClosureSearch
import ScriptAtlas.Proofs.Includes.Cycles

/-! # Closures — the files that a script depends on, and those that depend on it

    The search lists numbers; files are what a reader sees.  Where steps between
    files are steps between their numbers (`IsStep`), walks are too
    (`IsStep.walk_iff`), and what the rounds list for numbers holds for files.
    Both closures are such a search, along edges and against them, so one is
    found in the other (`build_closures`).  The file that a search starts from
    may be listed although only a circuit of one edge too many leads back to it
    (`build_start_listed_iff`). -/

namespace ScriptAtlas.IncludeGraph

/-- Steps between files that `neighbours` gives for their numbers. -/
structure IsStep (g : IncludeGraph) (neighbours : Nat → List Nat) (step : Path → Path → Prop) :
    Prop where
  step_iff : ∀ {i j p q}, g.Names i p → g.Names j q → (step p q ↔ j ∈ neighbours i)
  named : ∀ {p q}, step p q → ∃ i j, g.Names i p ∧ g.Names j q
  bound : ∀ {i j}, j ∈ neighbours i → i < g.nodes.length ∧ j < g.nodes.length

theorem mem_targetsOf {links : List (Nat × Nat)} {i j : Nat} :
    j ∈ targetsOf links i ↔ Linked links i j := by
  simp [targetsOf, mem_sortBy, Linked]

theorem mem_sourcesOf {links : List (Nat × Nat)} {i j : Nat} :
    j ∈ sourcesOf links i ↔ Linked links j i := by
  simp [sourcesOf, mem_sortBy, Linked]

variable {g : IncludeGraph}

theorem IsNumbered.isStep_targetsOf (hg : IsNumbered g) :
    g.IsStep (targetsOf g.links) g.Leads := by
  refine ⟨?_, ?_, ?_⟩
  · intro i j p q hi hj
    rw [mem_targetsOf, hg.leads_iff_linked hi hj]
  · intro p q h
    obtain ⟨i, j, hi, hj, -⟩ := hg.exists_names_of_leads h
    exact ⟨i, j, hi, hj⟩
  · intro i j h
    exact hg.bound_of_linked (mem_targetsOf.mp h)

theorem IsNumbered.isStep_sourcesOf (hg : IsNumbered g) :
    g.IsStep (sourcesOf g.links) (flip g.Leads) := by
  refine ⟨?_, ?_, ?_⟩
  · intro i j p q hi hj
    rw [mem_sourcesOf, ← hg.leads_iff_linked hj hi]
    rfl
  · intro p q h
    obtain ⟨j, i, hj, hi, -⟩ := hg.exists_names_of_leads h
    exact ⟨i, j, hi, hj⟩
  · intro i j h
    exact (hg.bound_of_linked (mem_sourcesOf.mp h)).symm

/-! ## Walks between files -/

section

variable {neighbours : Nat → List Nat} {step : Path → Path → Prop} {i j n : Nat} {p q : Path}

namespace IsStep

variable (hstep : g.IsStep neighbours step)

include hstep

theorem exists_walk (hi : g.Names i p) (h : Walk step p n q) :
    ∃ j, g.Names j q ∧ Walk (fun a b => b ∈ neighbours a) i n j := by
  induction h with
  | stay => exact ⟨i, hi, .stay⟩
  | @go n r q _ hlast ih =>
      obtain ⟨k, hk, hwalk⟩ := ih
      obtain ⟨-, j, -, hj⟩ := hstep.named hlast
      exact ⟨j, hj, hwalk.go ((hstep.step_iff hk hj).mp hlast)⟩

theorem walk_of_pos (hi : g.Names i p) (hj : g.Names j q)
    (h : Walk (fun a b => b ∈ neighbours a) i n j) (hn : 0 < n) : Walk step p n q := by
  induction h generalizing q with
  | stay => exact absurd hn (Nat.lt_irrefl 0)
  | @go n k j hwalk hlast ih =>
      cases n with
      | zero =>
          cases hwalk
          exact Walk.stay.go ((hstep.step_iff hi hj).mpr hlast)
      | succ n =>
          have hk := names_spelling (hstep.bound hlast).1
          exact (ih hk (Nat.succ_pos n)).go ((hstep.step_iff hk hj).mpr hlast)

variable (hg : IsNumbered g)

include hg

/-- A walk between files is a walk between their numbers. -/
theorem walk_iff (hi : g.Names i p) (hj : g.Names j q) (h : 0 < n ∨ i ≠ j) :
    Walk step p n q ↔ Walk (fun a b => b ∈ neighbours a) i n j := by
  constructor
  · intro hwalk
    obtain ⟨k, hk, hwalk⟩ := hstep.exists_walk hi hwalk
    exact hg.eq_of_names hj hk ▸ hwalk
  · intro hwalk
    refine hstep.walk_of_pos hi hj hwalk ?_
    rcases h with hn | hne
    · exact hn
    · refine Nat.pos_of_ne_zero ?_
      rintro rfl
      cases hwalk
      exact hne rfl

theorem within_iff (hi : g.Names i p) (hj : g.Names j q) (hne : i ≠ j) :
    Within step n p q ↔ Within (fun a b => b ∈ neighbours a) n i j := by
  simp only [Within, hstep.walk_iff hg hi hj (Or.inr hne)]

theorem isDistance_iff (hi : g.Names i p) (hj : g.Names j q) (hne : i ≠ j) :
    IsDistance step n p q ↔ IsDistance (fun a b => b ∈ neighbours a) n i j := by
  simp only [IsDistance, hstep.walk_iff hg hi hj (Or.inr hne)]

end IsStep

theorem IsNumbered.same_spelling_iff (hg : IsNumbered g) (hi : g.Names i p)
    (hj : j < g.nodes.length) : p.same (g.spelling j) = true ↔ j = i := by
  rw [Path.same_iff]
  constructor
  · intro hkey
    exact (hg.eq_of_names (hi.congr hkey) (names_spelling hj)).symm
  · rintro rfl
    exact hi.key_eq (names_spelling hj)

/-- A list of the files that at most `depth` steps lead to, each once and the nearer ones first.
    It may hold the file that it starts from. -/
structure ListsWithin (step : Path → Path → Prop) (p : Path) (depth : Nat) (files : List Path) :
    Prop where
  /-- A file other than the start is listed when at most `depth` steps lead to it. -/
  listed : ∀ q, p.same q = false →
    ((∃ r ∈ files, r.same q = true) ↔ Within step depth p q)
  once : (files.filter (!p.same ·)).Pairwise fun q r => q.same r = false
  ordered : (files.filter (!p.same ·)).Pairwise fun q r =>
    ∃ m n, m ≤ n ∧ IsDistance step m p q ∧ IsDistance step n p r

/-! ## The files listed -/

namespace IsStep

variable {start depth : Nat} (hstep : g.IsStep neighbours step)

include hstep

theorem bound_of_mem_rounds (hstart : start < g.nodes.length)
    (hi : i ∈ rounds neighbours start depth [start] [start] false) : i < g.nodes.length := by
  by_cases hne : i = start
  · exact hne ▸ hstart
  · obtain ⟨n, -, hwalk⟩ := (mem_rounds_iff hne).mp hi
    cases hwalk with
    | stay => exact hstart
    | go _ hlast => exact (hstep.bound hlast).2

variable (hg : IsNumbered g) (hp : g.Names start p)

include hg hp

/-- A closure lists the nodes found, as they are spelled. -/
theorem closure_eq : g.closure neighbours p depth
    = (rounds neighbours start depth [start] [start] false).map g.spelling := by
  rw [closure, hg.indexOf?_eq_some_iff.mpr hp]
  exact pathsOf_eq_map fun i hi => hstep.bound_of_mem_rounds hp.bound hi

/-- Leaving the file out that a closure starts from is leaving its number out. -/
theorem filter_closure : (g.closure neighbours p depth).filter (!p.same ·)
    = ((rounds neighbours start depth [start] [start] false).filter (· != start)).map
      g.spelling := by
  rw [hstep.closure_eq hg hp, List.filter_map]
  congr 1
  refine List.filter_congr fun i hi => ?_
  have hsame := hg.same_spelling_iff hp (hstep.bound_of_mem_rounds hp.bound hi)
  rw [Function.comp_apply, bne, Bool.not_inj_iff, Bool.eq_iff_iff, hsame, beq_iff_eq]

/-- A closure that starts at a node. -/
theorem listsWithin_of_names : ListsWithin step p depth (g.closure neighbours p depth) := by
  obtain ⟨-, hnodup, hordered⟩ := (Reached.initial neighbours start).lists depth false
  have hbound : ∀ i ∈ (rounds neighbours start depth [start] [start] false).filter (· != start),
      i < g.nodes.length ∧ start ≠ i := by
    intro i hi
    obtain ⟨hi, hne⟩ := List.mem_filter.mp hi
    exact ⟨hstep.bound_of_mem_rounds hp.bound hi, (bne_iff_ne.mp hne).symm⟩
  refine ⟨?_, ?_, ?_⟩
  · intro q hq
    -- the start itself is listed by other rules, so it is set apart
    have hother {j : Nat} (hj : g.Names j q) : start ≠ j := by
      rintro rfl
      rw [Path.same_iff.mpr (hp.key_eq hj)] at hq
      exact nomatch hq
    rw [hstep.closure_eq hg hp]
    constructor
    · rintro ⟨r, hr, hrq⟩
      obtain ⟨j, hj, rfl⟩ := List.mem_map.mp hr
      have hname := (names_spelling (hstep.bound_of_mem_rounds hp.bound hj)).congr
        (Path.same_iff.mp hrq)
      have hne := hother hname
      exact (hstep.within_iff hg hp hname hne).mpr ((mem_rounds_iff hne.symm).mp hj)
    · rintro ⟨n, hn, hwalk⟩
      obtain ⟨j, hname, hwalk⟩ := hstep.exists_walk hp hwalk
      have hj := (mem_rounds_iff (hother hname).symm).mpr ⟨n, hn, hwalk⟩
      exact ⟨_, List.mem_map_of_mem hj,
        Path.same_iff.mpr ((names_spelling hname.bound).key_eq hname)⟩
  · rw [hstep.filter_closure hg hp]
    refine List.pairwise_map.mpr (hnodup.imp_of_mem ?_)
    intro i j hi hj hne
    rw [Bool.eq_false_iff]
    intro hsame
    exact hne ((hg.same_spelling_iff (names_spelling (hbound i hi).1) (hbound j hj).1).mp hsame).symm
  · rw [hstep.filter_closure hg hp]
    refine List.pairwise_map.mpr (hordered.imp_of_mem ?_)
    rintro i j hi hj ⟨m, n, hmn, hm, hn⟩
    obtain ⟨hi, hstarti⟩ := hbound i hi
    obtain ⟨hj, hstartj⟩ := hbound j hj
    exact ⟨m, n, hmn, (hstep.isDistance_iff hg hp (names_spelling hi) hstarti).mpr hm,
      (hstep.isDistance_iff hg hp (names_spelling hj) hstartj).mpr hn⟩

end IsStep

/-- A closure lists the files within its depth, whether or not it starts at a node. -/
theorem IsStep.listsWithin (hstep : g.IsStep neighbours step) (hg : IsNumbered g) (p : Path)
    (depth : Nat) : ListsWithin step p depth (g.closure neighbours p depth) := by
  cases hindex : g.indexOf? p with
  | some start => exact hstep.listsWithin_of_names hg (hg.indexOf?_eq_some_iff.mp hindex)
  | none =>
      have hnone : g.closure neighbours p depth = [] := by rw [closure, hindex]
      rw [hnone]
      refine ⟨?_, List.Pairwise.nil, List.Pairwise.nil⟩
      intro q hq
      constructor
      · rintro ⟨r, hr, -⟩
        exact absurd hr List.not_mem_nil
      · rintro ⟨n, -, hwalk⟩
        -- no step leads away from a file without a number
        rcases hwalk.eq_or_exists_step with rfl | ⟨r, hfirst⟩
        · rw [Path.same_iff.mpr rfl] at hq
          exact nomatch hq
        · obtain ⟨i, -, hi, -⟩ := hstep.named hfirst
          rw [hg.indexOf?_eq_some_iff.mpr hi] at hindex
          exact absurd hindex (Option.some_ne_none i)

/-- **CLOSURES**: apart from the file that it starts from, a closure lists the files that at most so
    many includes lead to, each once and the nearer ones first; and one file depends on another
    when it is among the dependents of that one. -/
theorem build_closures (root : Path) (disk : Option Disk) (maxDepth : Nat)
    (sources : List Source) :
    let g := build root disk maxDepth sources
    (∀ p depth, ListsWithin g.Leads p (min depth depthLimit) (g.dependencies p depth))
      ∧ (∀ p, ListsWithin (flip g.Leads) p (min maxDepth depthLimit) (g.dependents p))
      ∧ ∀ p q, p.same q = false →
        ((∃ r ∈ g.dependencies p maxDepth, r.same q = true)
          ↔ ∃ r ∈ g.dependents q, r.same p = true) := by
  intro g
  have hg : IsNumbered g := isNumbered_build root disk maxDepth sources
  have hdependencies (p : Path) (depth : Nat) :
      ListsWithin g.Leads p (min depth depthLimit) (g.dependencies p depth) :=
    hg.isStep_targetsOf.listsWithin hg p (min depth depthLimit)
  have hdependents (p : Path) :
      ListsWithin (flip g.Leads) p (min maxDepth depthLimit) (g.dependents p) :=
    hg.isStep_sourcesOf.listsWithin hg p (min maxDepth depthLimit)
  refine ⟨hdependencies, hdependents, ?_⟩
  intro p q hpq
  have hqp : q.same p = false := by
    rw [Path.same, Bool.beq_comm]
    exact hpq
  rw [(hdependencies p maxDepth).listed q hpq, (hdependents q).listed p hqp, within_flip_iff]

/-- A file on the disk is among the dependencies, whether it is tracked or not. -/
example :
    let text := "#include \"u.txt\"".toList
    let script : Path := ⟨"/w/q.scr".toList⟩
    let disk := Disk.empty.write ["w".toList, "u.txt".toList] (.file [])
    let g := build ⟨"/w".toList⟩ (some disk) 32 [⟨script, text, .read script text⟩]
    g.dependencies script 1 = [⟨"/w/u.txt".toList⟩]
      ∧ g.dependents ⟨"/w/u.txt".toList⟩ = [script] := by
  decide

/-! ## The file that a closure starts from -/

/-- The files that a file includes, once for each edge and by number. -/
def included (g : IncludeGraph) (p : Path) : List Path :=
  g.pathsOf (((g.indexOf? p).map (targetsOf g.links)).getD [])

namespace IsNumbered

variable {depth : Nat} (hg : IsNumbered g)

include hg

theorem included_eq (hp : g.Names i p) :
    g.included p = (targetsOf g.links i).map g.spelling := by
  rw [included, hg.indexOf?_eq_some_iff.mpr hp]
  exact pathsOf_eq_map fun j hj => (hg.isStep_targetsOf.bound hj).2

/-- What the files of a closure include, told by numbers. -/
theorem flatMap_included {l : List Nat} (hp : g.Names i p) (hl : ∀ j ∈ l, j < g.nodes.length) :
    (p :: l.map g.spelling).flatMap g.included
      = ((i :: l).flatMap (targetsOf g.links)).map g.spelling := by
  rw [List.flatMap_cons, List.flatMap_cons, List.map_append, hg.included_eq hp, List.flatMap_map,
    List.map_flatMap]
  congr 1
  refine List.flatMap_congr fun j hj => ?_
  exact hg.included_eq (names_spelling (hl j hj))

theorem start_listed_iff_of_names (hp : g.Names i p) :
    (∃ r ∈ g.closure (targetsOf g.links) p depth, p.same r = true)
      ↔ i ∈ rounds (targetsOf g.links) i depth [i] [i] false := by
  have hstep := hg.isStep_targetsOf
  rw [hstep.closure_eq hg hp]
  constructor
  · rintro ⟨r, hr, hsame⟩
    obtain ⟨j, hj, rfl⟩ := List.mem_map.mp hr
    exact (hg.same_spelling_iff hp (hstep.bound_of_mem_rounds hp.bound hj)).mp hsame ▸ hj
  · intro hi
    exact ⟨_, List.mem_map_of_mem hi, (hg.same_spelling_iff hp hp.bound).mpr rfl⟩

/-- The start is listed when the files included by those listed, in order, come to it before they
    come to a file that is too far away. -/
theorem start_listed_iff (p : Path) (depth : Nat) :
    (∃ r ∈ g.closure (targetsOf g.links) p depth, p.same r = true)
      ↔ ComesTo (p.same · = true) (fun q => p.same q = true ∨ Within g.Leads depth p q)
        ((p :: (g.closure (targetsOf g.links) p depth).filter (!p.same ·)).flatMap g.included) := by
  have hstep := hg.isStep_targetsOf
  cases hindex : g.indexOf? p with
  | none =>
      have hnone : g.closure (targetsOf g.links) p depth = [] := by rw [closure, hindex]
      have hincluded : g.included p = [] := by rw [included, hindex]; rfl
      simp [hnone, hincluded, not_comesTo_nil]
  | some i =>
      have hp := hg.indexOf?_eq_some_iff.mp hindex
      have hbound : ∀ j ∈ (rounds (targetsOf g.links) i depth [i] [i] false).filter (· != i),
          j < g.nodes.length := fun j hj =>
        hstep.bound_of_mem_rounds hp.bound (List.mem_filter.mp hj).1
      rw [hg.start_listed_iff_of_names hp, hstep.filter_closure hg hp, hg.flatMap_included hp hbound,
        (Reached.initial (targetsOf g.links) i).start_mem_iff depth false, Nat.zero_add,
        and_iff_right rfl, List.singleton_append]
      refine (comesTo_map_iff ?_ ?_).symm
      · intro j hj
        obtain ⟨k, -, hkj⟩ := List.mem_flatMap.mp hj
        exact hg.same_spelling_iff hp (hstep.bound hkj).2
      · intro j hj
        obtain ⟨k, -, hkj⟩ := List.mem_flatMap.mp hj
        have hj := (hstep.bound hkj).2
        rw [hg.same_spelling_iff hp hj]
        by_cases hback : j = i
        · subst hback
          simp only [true_or, true_iff]
          exact ⟨0, Nat.zero_le depth, .stay⟩
        · rw [hstep.within_iff hg hp (names_spelling hj) (Ne.symm hback)]
          simp only [hback, false_or]

theorem returnsWithin_iff (hp : g.Names i p) :
    ReturnsWithin g.Leads depth p
      ↔ ReturnsWithin (fun a b => b ∈ targetsOf g.links a) depth i := by
  simp only [ReturnsWithin, hg.isStep_targetsOf.walk_iff hg hp hp (Or.inl (Nat.succ_pos _))]

/-- A circuit within the depth is enough for the start to be listed, -/
theorem start_listed_of_returnsWithin (h : ReturnsWithin g.Leads depth p) :
    ∃ r ∈ g.closure (targetsOf g.links) p depth, p.same r = true := by
  obtain ⟨i, hp⟩ : ∃ i, g.Names i p := by
    obtain ⟨n, -, hcircuit⟩ := h
    cases hcircuit with
    | go _ hlast =>
        obtain ⟨-, i, -, hp⟩ := hg.isStep_targetsOf.named hlast
        exact ⟨i, hp⟩
  rw [hg.start_listed_iff_of_names hp]
  exact start_mem_of_returnsWithin ((hg.returnsWithin_iff hp).mp h)

/-- and one of at most one edge more is needed. -/
theorem returnsWithin_of_start_listed
    (h : ∃ r ∈ g.closure (targetsOf g.links) p depth, p.same r = true) :
    ReturnsWithin g.Leads (depth + 1) p := by
  cases hindex : g.indexOf? p with
  | none =>
      rw [closure, hindex] at h
      obtain ⟨r, hr, -⟩ := h
      exact absurd hr List.not_mem_nil
  | some i =>
      have hp := hg.indexOf?_eq_some_iff.mp hindex
      rw [hg.start_listed_iff_of_names hp] at h
      exact (hg.returnsWithin_iff hp).mpr (returnsWithin_of_start_mem h)

end IsNumbered

/-- **THE START**: a file is among its own dependencies when the includes of the files listed, in
    order, come to it before they come to a file beyond the depth.  A circuit within the depth is
    enough for that, and one of at most one edge more is needed. -/
theorem build_start_listed_iff (root : Path) (disk : Option Disk) (maxDepth : Nat)
    (sources : List Source) (p : Path) (depth : Nat) :
    let g := build root disk maxDepth sources
    let listed := ∃ r ∈ g.dependencies p depth, p.same r = true
    (listed ↔ ComesTo (p.same · = true)
        (fun q => p.same q = true ∨ Within g.Leads (min depth depthLimit) p q)
        ((p :: (g.dependencies p depth).filter (!p.same ·)).flatMap g.included))
      ∧ (ReturnsWithin g.Leads (min depth depthLimit) p → listed)
      ∧ (listed → ReturnsWithin g.Leads (min depth depthLimit + 1) p) := by
  intro g listed
  have hg : IsNumbered g := isNumbered_build root disk maxDepth sources
  exact ⟨hg.start_listed_iff p (min depth depthLimit), hg.start_listed_of_returnsWithin,
    hg.returnsWithin_of_start_listed⟩

/-- Two scripts that include each other: one include away from the first there is only the second,
    but the first is listed as well. -/
theorem start_listed_past_depth :
    let a : Path := ⟨"/w/a.scr".toList⟩
    let b : Path := ⟨"/w/b.scr".toList⟩
    let source (p : Path) (t : Text) : Source := ⟨p, t, .read p t⟩
    let g := build ⟨"/w".toList⟩ none 32
      [source a "#include \"b.scr\"".toList, source b "#include \"a.scr\"".toList]
    g.dependencies a 1 = [b, a] ∧ ¬ ReturnsWithin g.Leads (min 1 depthLimit) a := by
  intro a b source g
  have hedges : (g.edges.all fun e => !e.source.same a || e.target.all (!·.same a)) = true := by
    decide +kernel
  refine ⟨by decide +kernel, ?_⟩
  rintro ⟨n, hn, hcircuit⟩
  obtain rfl : n = 0 := Nat.lt_one_iff.mp hn
  -- the only circuit left is an include of the first script by itself
  cases hcircuit with
  | go hwalk hlast =>
      cases hwalk
      obtain ⟨e, he, hsource, t, ht, htarget⟩ := hlast
      have hnone := List.all_eq_true.mp hedges e he
      simp [hsource, ht, htarget] at hnone

end

end ScriptAtlas.IncludeGraph
