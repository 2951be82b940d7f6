import ScriptAtlas.Proofs.Problem.Findings

/-! # Independence — a rule's setting touches its own diagnostics alone

    Settings say of each rule whether it runs and how loudly.  What a rule finds
    depends on neither, so the rules do not see each other:

    * no rule looks at the settings of rules (`findings_setRule`), hence with
      another setting for one rule the diagnostics of every other rule stay
      (`diagnosticsOf_setRule_other`);
    * diagnostics are put together rule by rule and then sorted by place and rule.
      Sorting is stable and does not look at severities, so what is changed in
      one rule's share is changed in the whole, and nothing else moves
      (`diagnostics_disable`, `diagnostics_setSeverity`). -/

namespace ScriptAtlas

/-- The diagnostic with that severity, if it is about the rule. -/
def Diagnostic.setSeverity (r : Rule) (severity : Severity) (d : Diagnostic) : Diagnostic :=
  if d.rule = r then { d with severity } else d

theorem Diagnostic.setSeverity_of_rule {r : Rule} {d : Diagnostic} (h : d.rule = r)
    (severity : Severity) : d.setSeverity r severity = { d with severity } := by
  rw [setSeverity, if_pos h]

theorem Diagnostic.setSeverity_of_ne {r : Rule} {d : Diagnostic} (h : d.rule ≠ r)
    (severity : Severity) : d.setSeverity r severity = d := by
  rw [setSeverity, if_neg h]

/-- Severities do not count in the order of diagnostics. -/
theorem Diagnostic.order_setSeverity (r : Rule) (severity : Severity) (a b : Diagnostic) :
    order (a.setSeverity r severity) (b.setSeverity r severity) = order a b := by
  have hsame (d : Diagnostic) : (d.setSeverity r severity).problem = d.problem
      ∧ (d.setSeverity r severity).span = d.span := by
    rw [setSeverity]
    split
    · exact ⟨rfl, rfl⟩
    · exact ⟨rfl, rfl⟩
  simp only [order, compareLex, compareOn, rule, hsame]

namespace Settings

variable (s : Settings) (r : Rule) (setting : RuleSetting)

theorem severityOf_setRule_self : (s.setRule r setting).severityOf r
    = if setting.enabled then some (setting.severity.getD r.defaultSeverity) else none := by
  simp only [severityOf, setRule, if_true]

theorem severityOf_setRule_other {r' : Rule} (h : r' ≠ r) :
    (s.setRule r setting).severityOf r' = s.severityOf r' := by
  simp only [severityOf, setRule, if_neg h]

end Settings

namespace View

/-- The view with another setting for one rule. -/
def setRule (v : View) (r : Rule) (setting : RuleSetting) : View :=
  { v with settings := v.settings.setRule r setting }

variable (v : View) (r : Rule)

/-- No rule looks at the settings of rules. -/
theorem findings_setRule (setting : RuleSetting) (r' : Rule) :
    (v.setRule r setting).findings r' = v.findings r' := by
  cases r' <;> rfl

theorem diagnosticsOf_setRule_other (setting : RuleSetting) {r' : Rule} (h : r' ≠ r) :
    (v.setRule r setting).diagnosticsOf r' = v.diagnosticsOf r' := by
  have hseverity : (v.setRule r setting).settings.severityOf r' = v.settings.severityOf r' :=
    v.settings.severityOf_setRule_other r setting h
  rw [diagnosticsOf, diagnosticsOf, findings_setRule, hseverity]

/-- A rule that is switched off reports nothing. -/
theorem diagnosticsOf_disabled (severity : Option Severity) :
    (v.setRule r ⟨false, severity⟩).diagnosticsOf r = [] :=
  diagnosticsOf_none (v.settings.severityOf_setRule_self r ⟨false, severity⟩)

/-- A rule that runs reports what it finds, at the severity set for it or at its own. -/
theorem diagnosticsOf_enabled (severity : Option Severity) :
    (v.setRule r ⟨true, severity⟩).diagnosticsOf r
      = (v.findings r).map fun f => ⟨severity.getD r.defaultSeverity, f.problem, f.span⟩ := by
  rw [diagnosticsOf_some (v.settings.severityOf_setRule_self r ⟨true, severity⟩), findings_setRule]

/-- Switching a rule off leaves out its diagnostics. -/
theorem diagnostics_disable (old new : Option Severity) :
    (v.setRule r ⟨false, new⟩).diagnostics
      = (v.setRule r ⟨true, old⟩).diagnostics.filter (·.rule != r) := by
  rw [diagnostics, diagnostics, filter_sortBy, List.filter_flatMap]
  congr 2
  funext r'
  by_cases hr : r' = r
  · subst hr
    rw [diagnosticsOf_disabled, eq_comm, List.filter_eq_nil_iff]
    intro d hd
    simp [rule_of_mem_diagnosticsOf hd]
  · rw [diagnosticsOf_setRule_other v r _ hr, diagnosticsOf_setRule_other v r _ hr, eq_comm,
      List.filter_eq_self]
    intro d hd
    simp [rule_of_mem_diagnosticsOf hd, hr]

/-- Another severity for a rule is that of its diagnostics and of no others. -/
theorem diagnostics_setSeverity (enabled : Bool) (old new : Option Severity) :
    (v.setRule r ⟨enabled, new⟩).diagnostics = (v.setRule r ⟨enabled, old⟩).diagnostics.map
      (Diagnostic.setSeverity r (new.getD r.defaultSeverity)) := by
  rw [diagnostics, diagnostics, ← sortBy_map _ (Diagnostic.order_setSeverity r _),
    List.map_flatMap]
  congr 2
  funext r'
  by_cases hr : r' = r
  · subst hr
    cases enabled with
    | false =>
        rw [diagnosticsOf_disabled, diagnosticsOf_disabled]
        rfl
    | true =>
        rw [diagnosticsOf_enabled, diagnosticsOf_enabled, List.map_map]
        refine List.map_congr_left ?_
        intro f hf
        have hrule : Diagnostic.rule ⟨old.getD r'.defaultSeverity, f.problem, f.span⟩ = r' :=
          rule_of_mem_findings hf
        exact (Diagnostic.setSeverity_of_rule hrule _).symm
  · rw [diagnosticsOf_setRule_other v r _ hr, diagnosticsOf_setRule_other v r _ hr, eq_comm]
    refine (List.map_congr_left ?_).trans (List.map_id _)
    intro d hd
    refine Diagnostic.setSeverity_of_ne ?_ _
    rw [rule_of_mem_diagnosticsOf hd]
    exact hr

end View

namespace Workspace

/-- **RULES ARE INDEPENDENT**: every tracked script is analyzed.  With a rule switched off the
    diagnostics are those with the rule running but for the rule's own, in the same order; and with
    another severity for a rule they are the same but for the severity of the rule's own. -/
theorem analyze_rules_independent (w : Workspace) (disk : Disk) (path : Path) (s : Settings)
    (r : Rule) (old new : Option Severity) :
    (w.analyze disk s path).isSome = (w.document? path).isSome
      ∧ w.analyze disk (s.setRule r ⟨false, new⟩) path
          = (w.analyze disk (s.setRule r ⟨true, old⟩) path).map (·.filter (·.rule != r))
      ∧ ∀ enabled, w.analyze disk (s.setRule r ⟨enabled, new⟩) path
          = (w.analyze disk (s.setRule r ⟨enabled, old⟩) path).map fun ds => ds.map fun d =>
              if d.rule = r then { d with severity := new.getD r.defaultSeverity } else d := by
  have hview (setting : RuleSetting) : w.analyze disk (s.setRule r setting) path
      = (w.view? disk s path).map fun v => (v.setRule r setting).diagnostics := by
    rw [analyze, view?, view?, Option.map_map, Option.map_map]
    rfl
  refine ⟨?_, ?_, ?_⟩
  · rw [analyze, view?, Option.isSome_map, Option.isSome_map]
    rfl
  · rw [hview, hview, Option.map_map]
    congr 1
    funext v
    exact v.diagnostics_disable r old new
  · intro enabled
    rw [hview, hview, Option.map_map]
    congr 1
    funext v
    exact v.diagnostics_setSeverity r enabled old new

end Workspace

end ScriptAtlas
