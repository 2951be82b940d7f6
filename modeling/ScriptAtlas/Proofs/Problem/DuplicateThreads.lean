import ScriptAtlas.Proofs.Problem.Findings
import ScriptAtlas.Proofs.Symbols.Lookup
import ScriptAtlas.Proofs.Workspace.Consistency

/-! # Duplicate threads — every definition of a name but the first is reported

    Each script is analyzed by itself, and what is reported of a name adds up
    over all scripts: of the threads of one name, in any letter case, all but the
    least by path and line.  The route:

    * a thread is the first of its name when it stands where the first does
      (`Consistent.same_place_iff`), and else has the finding that names the
      first (`Consistent.duplicateProblem?_eq`);
    * so the diagnostics of a script are those of its threads that are not the
      first (`Consistent.diagnostics_duplicates`), listed by line as the threads
      are;
    * script by script these are the threads of the name without the first
      (`Consistent.duplicatesReported_eq`). -/

namespace ScriptAtlas

open Text

/-- Whether a diagnostic reports a thread of that name as defined twice. -/
def Diagnostic.duplicates (name : Text) (diagnostic : Diagnostic) : Bool :=
  match diagnostic.problem with
  | .duplicateThread n _ _ => sameName n name
  | _ => false

theorem Diagnostic.rule_of_duplicates {name : Text} {diagnostic : Diagnostic}
    (h : diagnostic.duplicates name = true) : diagnostic.rule = .duplicateThread := by
  rw [duplicates] at h
  split at h
  · next hproblem => rw [rule, hproblem]; rfl
  · exact absurd h Bool.false_ne_true

namespace Workspace

/-- The threads of that name in all tracked scripts, in any letter case. -/
def threadsNamed (w : Workspace) (name : Text) : List (Path × Thread) :=
  (w.select none (·.threads)).filter fun e => sameName e.2.name name

/-- What is reported of a thread whose first definition is another one. -/
def duplicateReport (w : Workspace) (severity : Severity) (first : Path × Thread) (t : Thread) :
    Diagnostic :=
  ⟨severity, .duplicateThread t.name (w.scriptPath first.1) (first.2.line + 1), t.span⟩

/-- What the analysis of every tracked script reports of the threads of a name. -/
def duplicatesReported (w : Workspace) (disk : Disk) (rules : Settings) (name : Text) :
    List (Path × Diagnostic) :=
  w.tracked.flatMap fun path =>
    (((w.analyze disk rules path).getD []).filter (·.duplicates name)).map fun d => (path, d)

variable {disk : Disk} {w : Workspace} {name : Text} {first : Path × Thread}
  {rest : List (Path × Thread)}

/-- Reports on threads are ordered as the threads are. -/
theorem duplicateReport_isLE {severity : Severity} {a b : Thread} (h : a.line < b.line) :
    (Diagnostic.order (w.duplicateReport severity first a)
      (w.duplicateReport severity first b)).isLE = true := by
  have hlt : a.span.start.order b.span.start = .lt := Position.order_of_line_lt h
  rw [Diagnostic.order, compareLex]
  show ((a.span.start.order b.span.start).then _).isLE = true
  rw [hlt]
  rfl

theorem threadsNamed_eq (w : Workspace) (name : Text) : w.threadsNamed name
    = (SymbolIndex.threadsOf w.documents).filter fun e => sameName e.2.name name := rfl

/-- The threads of a name are those of the same name in other letters. -/
theorem threadsNamed_congr {n : Text} (h : sameName n name = true) :
    w.threadsNamed n = w.threadsNamed name := by
  have hlower : lower n = lower name := beq_iff_eq.mp h
  rw [threadsNamed, threadsNamed]
  congr 1
  funext e
  rw [sameName, sameName, hlower]

namespace Consistent

/-- Threads of one name are listed by path, then by line. -/
theorem threadsNamed_pairwise (hw : Consistent disk w) (name : Text) :
    (w.threadsNamed name).Pairwise SymbolIndex.Earlier :=
  (SymbolIndex.threadsOf_pairwise hw.documents_ordered fun _ => hw.exists_read).filter _

/-- Threads of a name that stand in the same range of the same script are one thread. -/
theorem same_place_iff (hw : Consistent disk w) {a b : Path × Thread}
    (ha : a ∈ w.threadsNamed name) (hb : b ∈ w.threadsNamed name) :
    (a.1.same b.1 && a.2.span == b.2.span) = true ↔ a = b := by
  rw [Bool.and_eq_true, beq_iff_eq]
  constructor
  · rintro ⟨hsame, hspan⟩
    exact SymbolIndex.eq_of_place hw.documents_ordered (fun _ => hw.exists_read)
      (List.mem_filter.mp ha).1 (List.mem_filter.mp hb).1 (Path.same_iff.mp hsame)
      (congrArg (·.start.line) hspan)
  · rintro rfl
    exact ⟨Path.same_iff.mpr rfl, rfl⟩

/-- A thread has a finding when it is not the first of its name, and the finding names the first. -/
theorem duplicateProblem?_eq (hw : Consistent disk w) {v : View}
    (hindex : v.index = w.symbolIndex) (hpaths : v.workspace.scriptPath = w.scriptPath)
    {t : Thread} (ht : (v.path, t) ∈ w.threadsNamed t.name)
    (hnamed : w.threadsNamed t.name = first :: rest) :
    v.duplicateProblem? t = if first = (v.path, t) then none
      else some ⟨.duplicateThread t.name (w.scriptPath first.1) (first.2.line + 1), t.span⟩ := by
  have hplain : IsPlainName t.name := by
    obtain ⟨entry, hentry, -, hmem⟩ := SymbolIndex.mem_threadsOf.mp (List.mem_filter.mp ht).1
    obtain ⟨file, text, hd⟩ := hw.exists_read hentry
    rw [hd] at hmem
    exact isPlainName_of_mem_threads hmem
  have hfound : (v.index.findAll t.name).filter (·.kind == .thread)
      = (first :: rest).map fun e => (SymbolIndex.ofThread e.1 e.2).2 := by
    rw [hindex, hw.symbolIndex_eq, ← hnamed, threadsNamed_eq]
    exact SymbolIndex.findAll_threads w.root hw.documents_ordered (fun _ => hw.exists_read) hplain
  rw [View.duplicateProblem?, hfound]
  cases rest with
  | nil =>
      -- the only thread of the name is this one
      rw [hnamed, List.mem_singleton] at ht
      rw [if_pos ht.symm]
      rfl
  | cons second rest =>
      have hself := hw.same_place_iff (hnamed ▸ List.mem_cons_self : first ∈ _) ht
      show (if first.1.same v.path && first.2.span == t.span then none
        else some (⟨.duplicateThread t.name (v.workspace.scriptPath first.1) (first.2.line + 1),
          t.span⟩ : Finding)) = _
      rw [hpaths]
      exact if_congr hself rfl rfl

/-- What the rule reports of a name in a script: its threads of the name, but not the first. -/
theorem diagnosticsOf_duplicates (hw : Consistent disk w) {v : View}
    (hindex : v.index = w.symbolIndex) (hpaths : v.workspace.scriptPath = w.scriptPath)
    (hscript : (v.path, v.document) ∈ w.documents) {severity : Severity}
    (hseverity : v.settings.severityOf .duplicateThread = some severity)
    (hnamed : w.threadsNamed name = first :: rest) :
    (v.diagnosticsOf .duplicateThread).filter (·.duplicates name)
      = (v.document.threads.filter fun t => sameName t.name name && first != (v.path, t)).map
          (w.duplicateReport severity first) := by
  rw [View.diagnosticsOf_some hseverity]
  show ((v.document.threads.filterMap v.duplicateProblem?).map _).filter _ = _
  rw [List.map_filterMap, List.filter_filterMap, ← List.filterMap_eq_map, List.filterMap_filter]
  refine List.filterMap_congr ?_
  intro t ht
  cases hname : sameName t.name name with
  | false =>
      -- a finding on a thread of another name is about that name
      rw [Bool.false_and, if_neg Bool.false_ne_true]
      cases hproblem : v.duplicateProblem? t with
      | none => rfl
      | some f =>
          obtain ⟨script, line, rfl⟩ := View.of_duplicateProblem? hproblem
          exact if_neg (ne_true_of_eq_false hname)
  | true =>
      have hthis : (v.path, t) ∈ w.threadsNamed t.name :=
        List.mem_filter.mpr ⟨SymbolIndex.mem_threadsOf.mpr ⟨_, hscript, rfl, ht⟩,
          beq_self_eq_true (lower t.name)⟩
      rw [hw.duplicateProblem?_eq hindex hpaths hthis ((threadsNamed_congr hname).trans hnamed),
        Bool.true_and]
      by_cases hself : first = (v.path, t)
      · rw [if_pos hself, if_neg (by simpa using hself)]
        rfl
      · rw [if_neg hself, if_pos (bne_iff_ne.mpr hself)]
        exact if_pos hname

/-- What the analysis of a script reports of a name, in order: the threads of a script are listed by
    line, so sorting leaves their diagnostics alone. -/
theorem diagnostics_duplicates (hw : Consistent disk w) {v : View}
    (hindex : v.index = w.symbolIndex) (hpaths : v.workspace.scriptPath = w.scriptPath)
    (hscript : (v.path, v.document) ∈ w.documents) {severity : Severity}
    (hseverity : v.settings.severityOf .duplicateThread = some severity)
    (hnamed : w.threadsNamed name = first :: rest) :
    v.diagnostics.filter (·.duplicates name)
      = (v.document.threads.filter fun t => sameName t.name name && first != (v.path, t)).map
          (w.duplicateReport severity first) := by
  obtain ⟨file, text, hd⟩ := hw.exists_read hscript
  have hlines : v.document.threads.Pairwise fun a b => a.line < b.line := by
    rw [show v.document = _ from hd]
    exact header_lines_increase file text
  rw [v.filter_diagnostics (fun _ => Diagnostic.rule_of_duplicates),
    hw.diagnosticsOf_duplicates hindex hpaths hscript hseverity hnamed]
  refine sortBy_of_pairwise (List.pairwise_map.mpr ((hlines.filter _).imp ?_))
  exact duplicateReport_isLE

/-- A tracked script is analyzed, and what is reported of a name are its threads but the first. -/
theorem exists_analyze_duplicates (hw : Consistent disk w) {script : Path × Document}
    (hscript : script ∈ w.documents) (now : Disk) {rules : Settings} {severity : Severity}
    (hrule : rules.severityOf .duplicateThread = some severity)
    (hnamed : w.threadsNamed name = first :: rest) :
    ∃ ds, w.analyze now rules script.1 = some ds ∧ ds.filter (·.duplicates name)
      = (script.2.threads.filter fun t => sameName t.name name && first != (script.1, t)).map
          (w.duplicateReport severity first) := by
  have hd := hw.document?_of_mem hscript (Path.same_iff.mpr rfl)
  obtain ⟨v, hv⟩ := exists_view? hd now rules
  obtain ⟨hdocument, rfl, hindex⟩ := view?_spec hv
  obtain ⟨hpath, -, hpaths⟩ := view?_surroundings hv
  obtain rfl : script = (v.path, v.document) :=
    Prod.ext hpath.symm (Option.some.inj (hd.symm.trans hdocument))
  exact ⟨v.diagnostics, congrArg (Option.map _) hv,
    hw.diagnostics_duplicates hindex hpaths hscript hrule hnamed⟩

/-- Script by script, all threads of a name but the first are reported. -/
theorem duplicatesReported_eq (hw : Consistent disk w) (now : Disk) {rules : Settings}
    {severity : Severity} (hrule : rules.severityOf .duplicateThread = some severity)
    (hnamed : w.threadsNamed name = first :: rest) :
    w.duplicatesReported now rules name
      = rest.map fun e => (e.1, w.duplicateReport severity first e.2) := by
  have hrest : (w.threadsNamed name).filter (first != ·) = rest := by
    have hearlier := hw.threadsNamed_pairwise name
    rw [hnamed] at hearlier ⊢
    obtain ⟨hfirst, -⟩ := List.pairwise_cons.mp hearlier
    rw [List.filter_cons_of_neg (by simp), List.filter_eq_self]
    intro e he
    exact bne_iff_ne.mpr (hfirst e he).ne
  -- script by script, reports are the threads of that name other than the first
  calc w.duplicatesReported now rules name
      = w.documents.flatMap fun script =>
          (((w.analyze now rules script.1).getD []).filter (·.duplicates name)).map
            fun d => (script.1, d) := List.flatMap_map ..
    _ = w.documents.flatMap fun script =>
          (script.2.threads.filter fun t => sameName t.name name && first != (script.1, t)).map
            fun t => (script.1, w.duplicateReport severity first t) := by
        refine List.flatMap_congr ?_
        intro script hscript
        obtain ⟨ds, hds, hreports⟩ := hw.exists_analyze_duplicates hscript now hrule hnamed
        rw [hds, Option.getD_some, hreports, List.map_map]
        rfl
    _ = ((w.threadsNamed name).filter (first != ·)).map
          fun e => (e.1, w.duplicateReport severity first e.2) := by
        rw [threadsNamed_eq, SymbolIndex.threadsOf, List.filter_filter, List.filter_flatMap,
          List.map_flatMap]
        refine List.flatMap_congr ?_
        intro script _
        rw [List.filter_map, List.map_map]
        congr 1
        refine List.filter_congr ?_
        intro t _
        exact Bool.and_comm _ _
    _ = rest.map fun e => (e.1, w.duplicateReport severity first e.2) := by rw [hrest]

end Consistent

/-- **DUPLICATE THREADS**: with the rule enabled, analyzing every tracked script reports each thread
    of a name once, but for the least by path and line, whose script and line all of them name. -/
theorem duplicate_threads_accounted (settings : Settings) (root : Path) (disk : Disk)
    (ops : List Operation) (now : Disk) (rules : Settings) {severity : Severity}
    (hrule : rules.severityOf .duplicateThread = some severity) {name : Text}
    {first : Path × Thread} {rest : List (Path × Thread)}
    (hnamed : ((empty settings root).run disk ops).threadsNamed name = first :: rest) :
    (∀ e ∈ rest, SymbolIndex.Earlier first e)
      ∧ (∀ path ∈ ((empty settings root).run disk ops).tracked,
          (((empty settings root).run disk ops).analyze now rules path).isSome = true)
      ∧ ((empty settings root).run disk ops).duplicatesReported now rules name = (rest.map
          fun e => (e.1, ((empty settings root).run disk ops).duplicateReport severity first e.2))
      ∧ (((empty settings root).run disk ops).duplicatesReported now rules name).length
        = (((empty settings root).run disk ops).threadsNamed name).length - 1 := by
  have hw := (Consistent.empty disk settings root).run ops
  generalize (empty settings root).run disk ops = w at hw hnamed ⊢
  have hreported := hw.duplicatesReported_eq now hrule hnamed
  refine ⟨?least, ?analyzed, hreported, ?count⟩
  case least =>
    have hearlier := hw.threadsNamed_pairwise name
    rw [hnamed] at hearlier
    exact (List.pairwise_cons.mp hearlier).1
  case analyzed =>
    intro path hpath
    obtain ⟨script, hscript, rfl⟩ := List.mem_map.mp hpath
    obtain ⟨ds, hds, -⟩ := hw.exists_analyze_duplicates hscript now hrule hnamed
    rw [hds]
    rfl
  case count =>
    rw [hreported, hnamed, List.length_map]
    rfl

/-- One script defines the thread twice and one once more, where a label has the name too. -/
theorem duplicate_threads_of_two_scripts :
    let a : Path := ⟨"/w/a.scr".toList⟩
    let b : Path := ⟨"/w/b.scr".toList⟩
    let w := (empty .default ⟨"/w".toList⟩).run .empty
      [.upsert b "x:\nmain:\nend\nMain:\nend".toList, .upsert a "main:\nend\nMAIN:\nend".toList]
    let first : Thread := ⟨"main".toList, [], ⟨⟨0, 0⟩, ⟨0, 4⟩⟩, .entryPoint, some 1⟩
    let second : Thread := ⟨"MAIN".toList, [], ⟨⟨2, 0⟩, ⟨2, 4⟩⟩, .entryPoint, some 3⟩
    let third : Thread := ⟨"Main".toList, [], ⟨⟨3, 0⟩, ⟨3, 4⟩⟩, .entryPoint, some 4⟩
    Settings.default.severityOf .duplicateThread = some .warning
      ∧ w.threadsNamed "mAIN".toList = [(a, first), (a, second), (b, third)]
      ∧ w.duplicatesReported .empty .default "mAIN".toList
        = [(a, ⟨.warning, .duplicateThread "MAIN".toList "a.scr".toList 1, second.span⟩),
          (b, ⟨.warning, .duplicateThread "Main".toList "a.scr".toList 1, third.span⟩)] := by
  intro a b w first second third
  have hnamed : w.threadsNamed "mAIN".toList = [(a, first), (a, second), (b, third)] := by
    decide +kernel
  have hscript : w.scriptPath a = "a.scr".toList := by decide +kernel
  obtain ⟨-, -, hreported, -⟩ := duplicate_threads_accounted .default ⟨"/w".toList⟩ .empty
    [.upsert b "x:\nmain:\nend\nMain:\nend".toList, .upsert a "main:\nend\nMAIN:\nend".toList]
    .empty .default rfl hnamed
  refine ⟨rfl, hnamed, hreported.trans ?_⟩
  show [(a, w.duplicateReport .warning (a, first) second),
    (b, w.duplicateReport .warning (a, first) third)] = _
  rw [duplicateReport, duplicateReport, hscript]
  rfl

end Workspace

end ScriptAtlas
