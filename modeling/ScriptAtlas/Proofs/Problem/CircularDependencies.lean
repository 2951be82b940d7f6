import ScriptAtlas.Proofs.Includes.Cycles
import ScriptAtlas.Proofs.Problem.Findings
import ScriptAtlas.Proofs.Workspace.Consistency

/-! # Circular dependencies — every member of a cycle is told, and told where

    The search for cycles works on the graph; the rule looks at one script and
    finds its way back from the cycle to an include of the script.  The route:

    * no two cycles are connected, so a file is in one at most
      (`cyclesThrough_eq`);
    * a cycle is a circuit, so its members lead to the ones after them, the last
      to the first (`IsCircuit.step_of_follows`), and the member that the rule
      takes for the next one is the next one (`exists_nextMember?`);
    * hence the rule always has an edge to stand on (`exists_cycleFinding`), and
      the edges of a script are its includes (`exists_include_of_mem_edges`). -/

namespace ScriptAtlas

namespace IncludeGraph

/-! ## Going round a cycle -/

/-- Whether one member comes right after another in a cycle; the first comes after the last. -/
def Follows {α : Type} (cycle : List α) (a b : α) : Prop := [a, b] <:+: cycle ++ cycle.take 1

section Circuit

variable {α : Type} {cycle : List α}

/-- Each member of a circuit leads to the one after it. -/
theorem IsCircuit.step_of_follows {step : α → α → Prop} (h : IsCircuit step cycle) {a b : α}
    (hfollows : Follows cycle a b) : step a b := by
  have hround : (cycle ++ cycle.take 1).IsChain step := by
    refine List.isChain_append.mpr ⟨h.chain, h.chain.take 1, ?_⟩
    intro last hlast first hfirst
    rw [List.head?_take] at hfirst
    exact h.closed last hlast first hfirst
  exact List.isChain_pair.mp <| List.IsChain.infix hround hfollows

/-- The member at a place is followed by the one at the next place, counted round. -/
theorem follows_getElem {i : Nat} (hi : i < cycle.length) :
    ∃ next, cycle[(i + 1) % cycle.length]? = some next ∧ Follows cycle cycle[i] next := by
  have hlt : (i + 1) % cycle.length < cycle.length := Nat.mod_lt _ (Nat.zero_lt_of_lt hi)
  refine ⟨cycle[(i + 1) % cycle.length], List.getElem?_eq_getElem hlt, ?_⟩
  have hnext : (cycle ++ cycle.take 1)[i + 1]? = some cycle[(i + 1) % cycle.length] := by
    rw [← List.getElem?_eq_getElem hlt]
    by_cases hlast : i + 1 < cycle.length
    · rw [List.getElem?_append_left hlast, Nat.mod_eq_of_lt hlast]
    · have hround : i + 1 = cycle.length := by omega
      rw [hround, List.getElem?_append_right (Nat.le_refl _), Nat.sub_self, Nat.mod_self,
        List.getElem?_take_of_lt Nat.one_pos]
  have hhere : (cycle ++ cycle.take 1)[i]? = some cycle[i] := by
    rw [List.getElem?_append_left hi, List.getElem?_eq_getElem hi]
  refine List.infix_iff_getElem?.mpr ⟨i, ?_, ?_⟩
  · have hbound := (List.getElem?_eq_some_iff.mp hnext).1
    show 2 + i ≤ _
    omega
  · intro k hk
    rcases Nat.lt_or_ge k 1 with h0 | h1
    · obtain rfl : k = 0 := by omega
      rw [Nat.zero_add]
      exact hhere
    · obtain rfl : k = 1 := by
        have : k < 2 := hk
        omega
      rw [Nat.add_comm]
      exact hnext

end Circuit

end IncludeGraph

/-- In a cycle that goes through each file once, the rule's next member is the one that follows. -/
theorem View.exists_nextMember? {cycle : List Path}
    (honce : cycle.Pairwise fun p q => p.same q = false) {m p : Path} (hm : m ∈ cycle)
    (hsame : m.same p = true) :
    ∃ next, nextMember? cycle p = some next ∧ IncludeGraph.Follows cycle m next := by
  obtain ⟨i, hi⟩ : ∃ i, cycle.findIdx? (·.same p) = some i := by
    rw [← Option.isSome_iff_exists, List.findIdx?_isSome, List.any_eq_true]
    exact ⟨m, hm, hsame⟩
  obtain ⟨hlt, hfound, -⟩ := List.findIdx?_eq_some_iff_getElem.mp hi
  have hmember : cycle[i] = m := by
    by_contra hne
    have hsymm : Std.Symm fun p q : Path => p.same q = false :=
      ⟨fun p q h => by rw [← h, Path.same, Path.same, Bool.beq_comm]⟩
    have hother := honce.forall (List.getElem_mem hlt) hm hne
    have hkey := (Path.same_iff.mp hfound).trans (Path.same_iff.mp hsame).symm
    exact absurd (hother.symm.trans (Path.same_iff.mpr hkey)) Bool.false_ne_true
  obtain ⟨next, hnext, hfollows⟩ := IncludeGraph.follows_getElem hlt
  refine ⟨next, ?_, hmember ▸ hfollows⟩
  rw [nextMember?, hi]
  exact hnext

namespace IncludeGraph

/-! ## The cycle of a file -/

/-- What at most one element of a list has is had by that element alone. -/
theorem filter_eq_singleton {α : Type} {p : α → Bool} {l : List α}
    (h : l.Pairwise fun a b => p a = true → p b = false) {a : α} (ha : a ∈ l) (hp : p a = true) :
    l.filter p = [a] := by
  induction l with
  | nil => exact nomatch ha
  | cons b l ih =>
      obtain ⟨hb, hl⟩ := List.pairwise_cons.mp h
      rw [List.filter_cons]
      rcases List.mem_cons.mp ha with rfl | ha
      · rw [if_pos hp, List.filter_eq_nil_iff.mpr]
        intro c hc
        rw [hb c hc hp]
        exact Bool.false_ne_true
      · have hbfalse : p b ≠ true := by
          intro hbtrue
          exact absurd hp (by rw [hb a ha hbtrue]; exact Bool.false_ne_true)
        rw [if_neg hbfalse]
        exact ih hl ha

variable {g : IncludeGraph} {cycle : List Path} {m p : Path}

/-- A file is a member of one cycle at most. -/
theorem IsNumbered.cyclesThrough_eq (hg : IsNumbered g) (hcycle : cycle ∈ g.cycles)
    (hm : m ∈ cycle) (hsame : m.same p = true) : g.cyclesThrough p = [cycle] := by
  refine filter_eq_singleton ?_ hcycle (List.any_eq_true.mpr ⟨m, hm, hsame⟩)
  refine hg.cycles_apart.imp ?_
  intro c d hapart hc
  obtain ⟨q, hq, hqp⟩ := List.any_eq_true.mp hc
  rw [List.any_eq_false]
  intro r hr hrp
  -- two spellings of one file are connected
  have hkey := (Path.same_iff.mp hqp).trans (Path.same_iff.mp hrp).symm
  exact hapart q hq r hr (.rel _ _ (Or.inl (Path.same_iff.mpr hkey)))

theorem mem_edgesFrom {entry : Nat × Edge} : entry ∈ g.edgesFrom p
    ↔ g.edges[entry.1]? = some entry.2 ∧ entry.2.source.same p = true := by
  simp only [edgesFrom, List.mem_map, List.mem_filter, List.mem_zipIdx_iff_getElem?]
  constructor
  · rintro ⟨⟨e, n⟩, ⟨he, hsource⟩, rfl⟩
    exact ⟨he, hsource⟩
  · rintro ⟨he, hsource⟩
    exact ⟨(entry.2, entry.1), ⟨he, hsource⟩, rfl⟩

/-- A member of a cycle has an edge to the member that follows it. -/
theorem IsNumbered.leads_of_follows (hg : IsNumbered g) (hcycle : cycle ∈ g.cycles) {next : Path}
    (h : Follows cycle m next) : g.Leads m next :=
  (hg.isCircuit_of_mem_cycles hcycle).1.step_of_follows h

end IncludeGraph

namespace View

open IncludeGraph

variable {v : View} {cycle : List Path}

/-- The finding for a cycle stands on the first edge that leads to the next member. -/
theorem cycleFinding_eq {next : Path} (hnext : nextMember? cycle v.path = some next) :
    v.cycleFinding cycle = ⟨.circularInclude (cycle.map v.workspace.scriptPath),
      (((v.graph.edgesFrom v.path).find? fun entry => entry.2.target.any (·.same next)).map
        (·.2.span)).getD .fileStart⟩ := by
  rw [cycleFinding, hnext]
  congr 5
  funext entry
  cases entry.2.target with
  | none => rfl
  | some target => rfl

/-- The finding for a cycle in one of its members stands on an edge of the member that leads to the
    next one, and never on the file as a whole. -/
theorem exists_cycleFinding (hg : IsNumbered v.graph) (hcycle : cycle ∈ v.graph.cycles) {m : Path}
    (hm : m ∈ cycle) (hsame : m.same v.path = true) :
    ∃ e ∈ v.graph.edges, e.source.same v.path = true
      ∧ v.cycleFinding cycle = ⟨.circularInclude (cycle.map v.workspace.scriptPath), e.span⟩
      ∧ ∃ target next, e.target = some target ∧ Follows cycle m next ∧ target.same next = true := by
  obtain ⟨-, honce, -⟩ := hg.isCircuit_of_mem_cycles hcycle
  obtain ⟨next, hnext, hfollows⟩ := exists_nextMember? honce hm hsame
  obtain ⟨e, he, hsource, target, htarget, hleads⟩ := hg.leads_of_follows hcycle hfollows
  -- the edge that is found need not be this one, but there is one to be found
  cases hfind : (v.graph.edgesFrom v.path).find? fun entry => entry.2.target.any (·.same next) with
  | none =>
      obtain ⟨n, hn⟩ := List.mem_iff_getElem?.mp he
      have hkey := (Path.same_iff.mp hsource).trans (Path.same_iff.mp hsame)
      have hmem : (n, e) ∈ v.graph.edgesFrom v.path :=
        mem_edgesFrom.mpr ⟨hn, Path.same_iff.mpr hkey⟩
      refine absurd ?_ (List.find?_eq_none.mp hfind _ hmem)
      rw [htarget]
      exact hleads
  | some entry =>
      obtain ⟨hedge, hfrom⟩ := mem_edgesFrom.mp (List.mem_of_find?_eq_some hfind)
      have hfound := List.find?_some hfind
      obtain ⟨t, ht, htsame⟩ : ∃ t, entry.2.target = some t ∧ t.same next = true := by
        cases ht : entry.2.target with
        | none =>
            rw [ht] at hfound
            exact nomatch hfound
        | some t =>
            rw [ht] at hfound
            exact ⟨t, rfl, hfound⟩
      refine ⟨entry.2, List.mem_of_getElem? hedge, hfrom, ?_, t, next, ht, hfollows, htsame⟩
      rw [cycleFinding_eq hnext, hfind]
      rfl

/-- A member of a cycle has one finding, that of the cycle. -/
theorem findings_circularDependency (hg : IsNumbered v.graph) (hcycle : cycle ∈ v.graph.cycles)
    {m : Path} (hm : m ∈ cycle) (hsame : m.same v.path = true) :
    v.findings .circularDependency = [v.cycleFinding cycle] := by
  show (v.graph.cyclesThrough v.path).map v.cycleFinding = _
  rw [hg.cyclesThrough_eq hcycle hm hsame]
  rfl

/-- A script has a finding when it is a member of a cycle. -/
theorem exists_circularDependency_iff : (∃ f, f ∈ v.findings .circularDependency)
    ↔ ∃ cycle ∈ v.graph.cycles, ∃ m ∈ cycle, m.same v.path = true := by
  constructor
  · rintro ⟨f, hf⟩
    obtain ⟨cycle, hcycle, -⟩ := List.mem_map.mp hf
    obtain ⟨hmem, hthrough⟩ := List.mem_filter.mp hcycle
    exact ⟨cycle, hmem, List.any_eq_true.mp hthrough⟩
  · rintro ⟨cycle, hcycle, hthrough⟩
    exact ⟨_, List.mem_map_of_mem (List.mem_filter.mpr ⟨hcycle, List.any_eq_true.mpr hthrough⟩)⟩

end View

namespace Workspace

variable {disk : Disk} {w : Workspace}

/-- The edges of the include graph are the includes of the tracked scripts. -/
theorem Consistent.exists_include_of_mem_edges (hw : Consistent disk w) {seen : Disk} {e : Edge}
    (he : e ∈ (w.freshGraph seen).edges) :
    ∃ entry ∈ w.documents, e.source = entry.1 ∧ ∃ i ∈ entry.2.includes, e.span = i.span
      ∧ e.target = w.resolve seen i.rawPath (some entry.1) := by
  obtain ⟨s, hs, he⟩ := List.mem_flatMap.mp he
  obtain ⟨entry, hentry, rfl⟩ := List.mem_map.mp hs
  obtain ⟨i, hi, rfl⟩ := List.mem_map.mp he
  refine ⟨entry, hentry, rfl, i, hi, rfl, ?_⟩
  rw [resolve, hw.symbolIndex_eq, List.map_map]
  rfl

/-- What a script is told of a cycle that it is the member `m` of. -/
structure IsCycleReport (w : Workspace) (seen : Disk) (script : Path × Document)
    (cycle : List Path) (m : Path) (diagnostic : Diagnostic) : Prop where
  /-- The message names the members of the cycle in order, from the first and back to it. -/
  message : diagnostic.message
    = "Circular include: " ++ Problem.cycleText (cycle.map w.scriptPath)
  /-- The range is that of an include of the script that names the next member. -/
  range : ∃ i ∈ script.2.includes, diagnostic.span = i.span
    ∧ ∃ target next, w.resolve seen i.rawPath (some script.1) = some target
      ∧ IncludeGraph.Follows cycle m next ∧ target.same next = true

/-- A member of a cycle is a tracked script. -/
theorem Consistent.exists_script_of_mem_cycle (hw : Consistent disk w) {seen : Disk}
    {cycle : List Path} (hcycle : cycle ∈ (w.freshGraph seen).cycles) {m : Path} (hm : m ∈ cycle) :
    ∃ script ∈ w.documents, script.1.same m = true := by
  have hg : IncludeGraph.IsNumbered (w.freshGraph seen) := IncludeGraph.isNumbered_build _ _ _ _
  obtain ⟨-, honce, -⟩ := hg.isCircuit_of_mem_cycles hcycle
  obtain ⟨next, -, hfollows⟩ := View.exists_nextMember? honce hm (Path.same_iff.mpr rfl)
  obtain ⟨e, he, hsource, -⟩ := hg.leads_of_follows hcycle hfollows
  obtain ⟨script, hscript, hsame, -⟩ := hw.exists_include_of_mem_edges he
  exact ⟨script, hscript, hsame ▸ hsource⟩

/-- The one diagnostic that a member of a cycle has under the rule. -/
theorem Consistent.exists_cycleReport (hw : Consistent disk w) {seen : Disk} {v : View}
    (hgraph : v.graph = w.freshGraph seen)
    (hrule : (v.settings.severityOf .circularDependency).isSome = true)
    (hpaths : v.workspace.scriptPath = w.scriptPath) {script : Path × Document}
    (hscript : script ∈ w.documents) (hsame : script.1.same v.path = true) {cycle : List Path}
    (hcycle : cycle ∈ v.graph.cycles) {m : Path} (hm : m ∈ cycle) (hmember : m.same v.path = true) :
    ∃ diagnostic, v.diagnostics.filter (·.rule == .circularDependency) = [diagnostic]
      ∧ w.IsCycleReport seen script cycle m diagnostic := by
  have hg : IncludeGraph.IsNumbered v.graph := hgraph ▸ IncludeGraph.isNumbered_build _ _ _ _
  obtain ⟨severity, hseverity⟩ := Option.isSome_iff_exists.mp hrule
  obtain ⟨e, he, hsource, hfinding, target, next, htarget, hfollows, htsame⟩ :=
    View.exists_cycleFinding hg hcycle hm hmember
  refine ⟨⟨severity, .circularInclude (cycle.map v.workspace.scriptPath), e.span⟩, ?_, ?_, ?_⟩
  · rw [v.filter_diagnostics (fun _ => beq_iff_eq.mp), View.diagnosticsOf_some hseverity,
      View.findings_circularDependency hg hcycle hm hmember, hfinding]
    rfl
  · rw [hpaths]
    rfl
  · rw [hgraph] at he
    obtain ⟨script', hscript', hsource', i, hi, hspan, hresolve⟩ := hw.exists_include_of_mem_edges he
    -- the edge is one of this script, which is tracked once
    have hkey : script'.1.key = script.1.key := by
      rw [← hsource', Path.same_iff.mp hsource, Path.same_iff.mp hsame]
    obtain rfl := hw.documents_ordered.eq_of_key hscript' hscript hkey
    exact ⟨i, hi, hspan, target, next, hresolve.symm.trans htarget, hfollows, htsame⟩

/-- **CIRCULAR DEPENDENCIES**: with the rule enabled, a tracked script has a diagnostic when it is a
    member of a cycle, and then exactly one, which says the same in all members and stands on an
    include of the script that names the next member.  All members of cycles are tracked scripts.
    Includes are resolved as the disk was when the graph was kept, or as it is now. -/
theorem circular_dependencies_reported (settings : Settings) (root : Path) (disk : Disk)
    (ops : List Operation) (now : Disk) (rules : Settings)
    (hrule : (rules.severityOf .circularDependency).isSome = true) :
    ∃ seen, (seen = disk ∨ seen = now)
      ∧ (∀ cycle ∈ (((empty settings root).run disk ops).includeGraph now).cycles, ∀ m ∈ cycle,
          ∃ script ∈ ((empty settings root).run disk ops).documents, script.1.same m = true)
      ∧ ∀ script ∈ ((empty settings root).run disk ops).documents, ∀ path,
        script.1.same path = true →
        ∃ ds, ((empty settings root).run disk ops).analyze now rules path = some ds
          ∧ ((∃ diagnostic ∈ ds, diagnostic.rule = .circularDependency)
            ↔ ∃ cycle ∈ (((empty settings root).run disk ops).includeGraph now).cycles,
              ∃ m ∈ cycle, m.same path = true)
          ∧ ∀ cycle ∈ (((empty settings root).run disk ops).includeGraph now).cycles, ∀ m ∈ cycle,
            m.same path = true →
            ∃ diagnostic, ds.filter (·.rule == .circularDependency) = [diagnostic]
              ∧ ((empty settings root).run disk ops).IsCycleReport seen script cycle m
                  diagnostic := by
  have hw := (Consistent.empty disk settings root).run ops
  generalize (empty settings root).run disk ops = w at hw ⊢
  -- a graph that is kept may have been built from the disk as it was
  obtain ⟨seen, hseen, hgraph⟩ := hw.exists_includeGraph_eq now
  refine ⟨seen, hseen, ?members, ?scripts⟩
  case members =>
    intro cycle hcycle m hm
    rw [hgraph] at hcycle
    exact hw.exists_script_of_mem_cycle hcycle hm
  case scripts =>
    intro script hscript path hsame
    obtain ⟨v, hv⟩ := exists_view? (hw.document?_of_mem hscript hsame) now rules
    obtain ⟨-, rfl, -⟩ := view?_spec hv
    obtain ⟨rfl, hvgraph, hpaths⟩ := view?_surroundings hv
    rw [← hvgraph]
    refine ⟨v.diagnostics, congrArg (Option.map _) hv, ?_, ?_⟩
    · rw [← View.exists_circularDependency_iff]
      constructor
      · rintro ⟨diagnostic, hmem, hcircular⟩
        exact ⟨_, hcircular ▸ (View.mem_diagnostics_iff.mp hmem).2⟩
      · rintro ⟨f, hf⟩
        obtain ⟨diagnostic, hmem, hcircular, -⟩ :=
          (View.exists_diagnostic_iff hrule).mpr ⟨f, hf, rfl⟩
        exact ⟨diagnostic, hmem, hcircular⟩
    · intro cycle hcycle m hm hmember
      exact hw.exists_cycleReport (hvgraph.trans hgraph) hrule hpaths hscript hsame hcycle hm
        hmember

/-- Of two includes the second leads on in the cycle; the script that the first names is in none. -/
theorem circular_dependencies_of_three_scripts :
    let a : Path := ⟨"/w/a.scr".toList⟩
    let b : Path := ⟨"/w/b.scr".toList⟩
    let c : Path := ⟨"/w/c.scr".toList⟩
    let t : Text := "#include \"c.scr\"\n#include \"a.scr\"".toList
    let w := (empty .default ⟨"/w".toList⟩).run .empty
      [.upsert a "#include \"b.scr\"".toList, .upsert b t, .upsert c []]
    (Settings.default.severityOf .circularDependency).isSome = true
      ∧ (w.includeGraph .empty).cycles = [[a, b]]
      ∧ (∃ diagnostic, (w.analyze .empty .default b).map
            (·.filter (·.rule == .circularDependency)) = some [diagnostic]
          ∧ w.IsCycleReport .empty (b, Document.read b t) [a, b] b diagnostic)
      ∧ ∃ ds, w.analyze .empty .default c = some ds
          ∧ ¬ ∃ diagnostic ∈ ds, diagnostic.rule = .circularDependency := by
  intro a b c t w
  have hcycles : (w.includeGraph .empty).cycles = [[a, b]] := by decide +kernel
  have hrule : (Settings.default.severityOf .circularDependency).isSome = true := rfl
  obtain ⟨seen, hseen, -, hscripts⟩ := circular_dependencies_reported .default ⟨"/w".toList⟩ .empty
    [.upsert a "#include \"b.scr\"".toList, .upsert b t, .upsert c []] .empty .default hrule
  obtain rfl : seen = .empty := hseen.elim id id
  obtain ⟨ds, hds, -, hreport⟩ := hscripts (b, Document.read b t) (by decide +kernel) b
    (by decide +kernel)
  obtain ⟨ds', hds', hnone, -⟩ := hscripts (c, Document.read c []) (by decide +kernel) c
    (by decide +kernel)
  refine ⟨hrule, hcycles, ?_, ds', hds', ?_⟩
  · obtain ⟨diagnostic, hone, hcycle⟩ := hreport [a, b] (hcycles ▸ List.mem_cons_self) b
      (List.mem_cons_of_mem _ List.mem_cons_self) (by decide +kernel)
    refine ⟨diagnostic, ?_, hcycle⟩
    show ((w.analyze .empty .default b).map _) = _
    rw [hds]
    exact congrArg some hone
  · intro hsome
    have hmember := hnone.mp hsome
    rw [hcycles] at hmember
    exact absurd hmember (by decide +kernel)

end Workspace

end ScriptAtlas
