import ScriptAtlas.Problem.Analysis
import ScriptAtlas.Proofs.Sorting

/-! # Findings — what rules find, and what is reported of it

    Each rule finds problems of its own kind, so a diagnostic can be told by its
    problem to come from one rule, whatever the other rules find.  The route:

    * what is wrong with one reference, `goto` or thread, said once for each
      (`of_crossProblem?`, `of_gotoProblem?`, `of_duplicateProblem?`);
    * every finding breaks the rule that found it (`rule_of_mem_findings`);
    * a diagnostic is a finding of its rule at the severity that settings give
      the rule (`mem_diagnostics_iff`);
    * diagnostics are sorted, so those of one rule can be looked at by themselves
      (`filter_diagnostics`). -/

namespace ScriptAtlas

/-- The comparison of diagnostics is transitive, so sorting them is stable. -/
instance : Std.TransCmp Diagnostic.order := by
  have hstart := transCmp_on Position.order fun d : Diagnostic => d.span.start
  exact inferInstanceAs (Std.TransCmp (compareLex (fun a b : Diagnostic =>
    a.span.start.order b.span.start) (compareOn fun d => d.rule.index)))

theorem Reachability.rule_of_mem_findingsFrom {d : Document} {dead : Option Dead} {rs : List Row}
    {f : Finding} (h : f ∈ findingsFrom d dead rs) : f.problem.rule = .unreachableCode := by
  have hdead {b : Dead} (hb : b.finding? = some f) : f.problem.rule = .unreachableCode := by
    obtain ⟨span, -, rfl⟩ := Option.map_eq_some_iff.mp hb
    rfl
  induction rs generalizing dead with
  | nil =>
      obtain ⟨b, -, hb⟩ := Option.bind_eq_some_iff.mp (Option.mem_toList.mp h)
      exact hdead hb
  | cons r rs ih =>
      cases dead with
      | none => exact ih h
      | some b =>
          rw [findingsFrom] at h
          split at h
          · rcases List.mem_append.mp h with hb | hrest
            · exact hdead (Option.mem_toList.mp hb)
            · exact ih hrest
          · exact ih h

namespace View

variable {v : View} {f : Finding}

theorem of_crossProblem? {r : CrossReference} (h : v.crossProblem? r = some f) :
    f = ⟨.scriptNotFound r.rawPath, r.pathSpan⟩ ∨ f = ⟨.threadNotIn r.name r.rawPath, r.span⟩ := by
  rw [crossProblem?] at h
  split at h
  · exact Or.inl (Option.some.inj h).symm
  · obtain ⟨d, -, hproblem⟩ := Option.bind_eq_some_iff.mp h
    obtain ⟨-, hf⟩ := Option.ite_none_left_eq_some.mp hproblem
    exact Or.inr (Option.some.inj hf).symm

theorem of_gotoProblem? {g : Jump} (h : v.gotoProblem? g = some f) :
    ∃ thread, f = ⟨.undefinedLabel g.name thread, g.span⟩ := by
  obtain ⟨owner, -, hthread⟩ := Option.bind_eq_some_iff.mp h
  obtain ⟨thread, -, hlabel⟩ := Option.bind_eq_some_iff.mp hthread
  obtain ⟨-, hf⟩ := Option.ite_none_left_eq_some.mp hlabel
  exact ⟨thread.name, (Option.some.inj hf).symm⟩

theorem of_duplicateProblem? {t : Thread} (h : v.duplicateProblem? t = some f) :
    ∃ script line, f = ⟨.duplicateThread t.name script line, t.span⟩ := by
  rw [duplicateProblem?] at h
  split at h
  · obtain ⟨-, hf⟩ := Option.ite_none_left_eq_some.mp h
    exact ⟨_, _, (Option.some.inj hf).symm⟩
  · exact nomatch h

/-- Every problem that a rule finds breaks that rule. -/
theorem rule_of_mem_findings {r : Rule} (h : f ∈ v.findings r) : f.problem.rule = r := by
  cases r with
  | undefinedThread =>
      rcases List.mem_append.mp h with hcall | hcross
      · obtain ⟨_, -, rfl⟩ := List.mem_map.mp hcall
        rfl
      · obtain ⟨_, -, hproblem⟩ := List.mem_filterMap.mp hcross
        rcases of_crossProblem? hproblem with rfl | rfl
        · rfl
        · rfl
  | undefinedLabel =>
      obtain ⟨_, -, hproblem⟩ := List.mem_filterMap.mp h
      obtain ⟨_, rfl⟩ := of_gotoProblem? hproblem
      rfl
  | duplicateThread =>
      obtain ⟨_, -, hproblem⟩ := List.mem_filterMap.mp h
      obtain ⟨_, _, rfl⟩ := of_duplicateProblem? hproblem
      rfl
  | unreachableCode => exact Reachability.rule_of_mem_findingsFrom h
  -- the other rules turn each offender into one finding
  | unusedThread | unusedLabel | unusedVariable | unknownFunction | circularDependency
  | missingInclude | unusedInclude =>
      obtain ⟨_, -, rfl⟩ := List.mem_map.mp h
      rfl

variable {diagnostic : Diagnostic}

/-- A rule that runs reports what it finds, at one severity. -/
theorem diagnosticsOf_some {r : Rule} {severity : Severity}
    (h : v.settings.severityOf r = some severity) :
    v.diagnosticsOf r = (v.findings r).map fun f => ⟨severity, f.problem, f.span⟩ := by
  rw [diagnosticsOf, h]

/-- A rule that does not run reports nothing. -/
theorem diagnosticsOf_none {r : Rule} (h : v.settings.severityOf r = none) :
    v.diagnosticsOf r = [] := by
  rw [diagnosticsOf, h]

/-- A diagnostic of a rule is a finding of the rule, at the severity that settings give it. -/
theorem mem_diagnosticsOf_iff {r : Rule} : diagnostic ∈ v.diagnosticsOf r ↔
    v.settings.severityOf r = some diagnostic.severity
      ∧ ⟨diagnostic.problem, diagnostic.span⟩ ∈ v.findings r := by
  cases hseverity : v.settings.severityOf r with
  | none => simp [diagnosticsOf_none hseverity]
  | some severity =>
      rw [diagnosticsOf_some hseverity, List.mem_map, Option.some.injEq]
      constructor
      · rintro ⟨f, hf, rfl⟩
        exact ⟨rfl, hf⟩
      · rintro ⟨rfl, hf⟩
        exact ⟨_, hf, rfl⟩

theorem rule_of_mem_diagnosticsOf {r : Rule} (h : diagnostic ∈ v.diagnosticsOf r) :
    diagnostic.rule = r :=
  rule_of_mem_findings (mem_diagnosticsOf_iff.mp h).2

/-- A diagnostic is a finding of its rule, at the severity that settings give the rule. -/
theorem mem_diagnostics_iff :
    diagnostic ∈ v.diagnostics ↔ v.settings.severityOf diagnostic.rule = some diagnostic.severity
      ∧ ⟨diagnostic.problem, diagnostic.span⟩ ∈ v.findings diagnostic.rule := by
  rw [diagnostics, mem_sortBy, List.mem_flatMap, ← mem_diagnosticsOf_iff]
  constructor
  · rintro ⟨r, -, hr⟩
    obtain rfl : diagnostic.rule = r := rule_of_mem_diagnosticsOf hr
    exact hr
  · intro h
    exact ⟨diagnostic.rule, by cases diagnostic.rule <;> decide, h⟩

/-- A rule that runs has a diagnostic at a range when it has a finding there. -/
theorem exists_diagnostic_iff {r : Rule} {span : Span}
    (hrule : (v.settings.severityOf r).isSome = true) :
    (∃ diagnostic ∈ v.diagnostics, diagnostic.rule = r ∧ diagnostic.span = span)
      ↔ ∃ f ∈ v.findings r, f.span = span := by
  constructor
  · rintro ⟨diagnostic, hmem, rfl, rfl⟩
    exact ⟨_, (mem_diagnostics_iff.mp hmem).2, rfl⟩
  · rintro ⟨f, hf, rfl⟩
    obtain ⟨severity, hseverity⟩ := Option.isSome_iff_exists.mp hrule
    obtain rfl := rule_of_mem_findings hf
    exact ⟨⟨severity, f.problem, f.span⟩, mem_diagnostics_iff.mpr ⟨hseverity, hf⟩, rfl, rfl⟩

/-- What is selected among all diagnostics is selected among those of the one rule it is about. -/
theorem filter_diagnostics (v : View) {r : Rule} {p : Diagnostic → Bool}
    (hp : ∀ diagnostic, p diagnostic = true → diagnostic.rule = r) :
    v.diagnostics.filter p = sortBy Diagnostic.order ((v.diagnosticsOf r).filter p) := by
  have hother (r' : Rule) (hne : r' ≠ r) : (v.diagnosticsOf r').filter p = [] := by
    rw [List.filter_eq_nil_iff]
    intro diagnostic hmem hselected
    exact hne ((rule_of_mem_diagnosticsOf hmem).symm.trans (hp diagnostic hselected))
  rw [diagnostics, filter_sortBy, List.filter_flatMap]
  congr 1
  cases r <;> simp [Rule.all, hother]

end View

end ScriptAtlas
