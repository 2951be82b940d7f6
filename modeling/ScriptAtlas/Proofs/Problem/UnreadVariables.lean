import ScriptAtlas.Proofs.Document.Occurrences
import ScriptAtlas.Proofs.Problem.UnusedVariables

/-! # Unread variables — one finding for each variable that nothing reads

    Writes are gathered into variables: a local variable is one of its thread, a
    level or game variable one of the script.  The route:

    * writes of one variable agree in all that decides whether it is read
      (`isRead_congr`), so the first may stand for all;
    * what counts as a read is looked up in the document for a local variable, and
      in the symbol index, under the name written out, for others; both are
      occurrences that define nothing (`Consistent.isRead_eq_false_iff_unread`);
    * writes go by line and column (`bindings_ordered`), so the writes kept are
      the first of their variables and sorting leaves their findings alone. -/

namespace ScriptAtlas

open Text

/-! ## Writes of one variable -/

namespace View

variable {a b : Binding}

/-- Writes of one variable are read alike. -/
theorem isRead_congr (v : View) (h : bindingKey a = bindingKey b) : v.isRead a = v.isRead b := by
  obtain ⟨hscope, hname, howner⟩ := bindingKey_eq_iff.mp h
  rw [isRead, isRead, hscope]
  by_cases hlocal : b.scope.isThreadScoped = true
  · rw [if_pos hlocal, if_pos hlocal, howner hlocal, hname]
  · rw [if_neg hlocal, if_neg hlocal, Binding.qualified, Binding.qualified, hscope, hname]

end View

/-! ## Reads -/

/-- The name in a binding is plain and has characters. -/
theorem isPlainName_of_mem_bindings {path : Path} {t : Text} {b : Binding}
    (h : b ∈ (Document.read path t).bindings) : IsPlainName b.name ∧ b.name ≠ [] := by
  obtain ⟨i, l, hl, hbinding⟩ := mem_filterMap_sites.mp h
  obtain ⟨hkind, -, heq⟩ := Site.of_binding? hbinding
  have hlkind : l.kind = .property b.scope true := hkind
  have hname : b.name = l.text := congrArg (·.name) heq
  rw [hname]
  exact isPlainName_of_lexeme hl (by rw [hlkind]; rfl)

/-- A variable written out is referred to when an occurrence somewhere does not define it. -/
theorem SymbolIndex.referenceCount_pos_iff (root : Path) (documents : List (Path × Document))
    {name : Text} (hplain : IsPlainName name) (hname : name ≠ []) (scope : Scope) :
    0 < (build root documents).referenceCount (scope.qualify name) false
      ↔ ∃ script ∈ documents, ∃ o ∈ script.2.occurrences,
        o.symbol = .ofVariable scope name ∧ o.isDefinition = false := by
  rw [referenceCount, List.length_pos_iff_exists_mem]
  simp only [findReferences, symbolOf_qualify hplain hname, List.mem_map, List.mem_filter,
    Bool.and_eq_true, beq_iff_eq, Bool.false_or, Bool.not_eq_true']
  show (∃ r, ∃ entry, (entry ∈ documents.flatMap _ ∧ _) ∧ _) ↔ _
  constructor
  · rintro ⟨_, entry, ⟨hentry, hsymbol, hreads⟩, -⟩
    obtain ⟨script, hscript, hentry⟩ := List.mem_flatMap.mp hentry
    obtain ⟨o, ho, rfl⟩ := List.mem_map.mp hentry
    exact ⟨script, hscript, o, ho, hsymbol, hreads⟩
  · rintro ⟨script, hscript, o, ho, hsymbol, hreads⟩
    exact ⟨_, _, ⟨List.mem_flatMap.mpr ⟨script, hscript, List.mem_map_of_mem ho⟩, hsymbol, hreads⟩,
      rfl⟩

namespace Workspace

variable {disk : Disk} {w : Workspace} {d : Document} {b : Binding}

/-- Nothing reads the variable that a binding writes: no occurrence in the thread for a local one,
    none in any tracked script for others, unless it defines the variable. -/
def Unread (w : Workspace) (d : Document) (b : Binding) : Prop :=
  if b.scope.isThreadScoped then
    ∀ o ∈ d.occurrences, o.symbol = .ofVariable b.scope b.name → o.owner = some b.owner →
      o.isDefinition = true
  else
    ∀ script ∈ w.documents, ∀ o ∈ script.2.occurrences, o.symbol = .ofVariable b.scope b.name →
      o.isDefinition = true

/-- The rule takes a variable for unread when no occurrence reads it. -/
theorem Consistent.isRead_eq_false_iff_unread (hw : Consistent disk w) {v : View}
    (hindex : v.index = w.symbolIndex) {path : Path} {t : Text}
    (hread : v.document = Document.read path t) (hb : b ∈ v.document.bindings) :
    v.isRead b = false ↔ w.Unread v.document b := by
  rw [View.isRead, Unread]
  by_cases hlocal : b.scope.isThreadScoped = true
  · rw [if_pos hlocal, if_pos hlocal, List.any_eq_false]
    refine forall₂_congr ?_
    intro o _
    cases o.isDefinition with
    | false => simp [imp.swap]
    | true => simp
  · rw [hread] at hb
    obtain ⟨hplain, hname⟩ := isPlainName_of_mem_bindings hb
    rw [if_neg hlocal, if_neg hlocal, hindex, hw.symbolIndex_eq, decide_eq_false_iff_not, freshIndex,
      Binding.qualified, SymbolIndex.referenceCount_pos_iff w.root w.documents hplain hname]
    simp

end Workspace

/-! ## The first write of each variable -/

/-- A binding is the first write of a variable. -/
structure Document.IsFirstWrite (d : Document) (key : Text × Option Nat) (b : Binding) : Prop where
  mem : b ∈ d.bindings
  key_eq : View.bindingKey b = key
  /-- Every other write of the variable stands further down or further to the right. -/
  first : ∀ a ∈ d.bindings, View.bindingKey a = key →
    a = b ∨ b.span.start.order a.span.start = .lt

/-- What a search finds stands before all else that it looks for. -/
theorem eq_or_rel_of_find? {α : Type} {R : α → α → Prop} {l : List α} (hl : l.Pairwise R)
    {p : α → Bool} {a b : α} (hfind : l.find? p = some b) (ha : a ∈ l) (hp : p a = true) :
    a = b ∨ R b a := by
  obtain ⟨before, after, rfl, hbefore⟩ := (List.find?_eq_some_iff_append.mp hfind).2
  rcases List.mem_append.mp ha with ha | ha
  · have hnot := hbefore a ha
    simp [hp] at hnot
  · rcases List.mem_cons.mp ha with rfl | ha
    · exact Or.inl rfl
    · exact Or.inr ((List.pairwise_cons.mp (List.pairwise_append.mp hl).2.1).1 a ha)

namespace View

variable {v : View}

/-- The first writes of the variables that belong to the scripts, as far as nothing reads them. -/
def unreadWrites (v : View) : List Binding :=
  (distinctBy bindingKey (v.document.bindings.filter (·.scope.isScriptOwned))).filter
    fun b => !v.isRead b

theorem unusedVariables_eq (v : View) :
    v.unusedVariables = v.unreadWrites.map fun b => ⟨.unusedVariable b.qualified, b.span⟩ := rfl

theorem unreadWrites_sublist (v : View) : v.unreadWrites.Sublist v.document.bindings :=
  List.filter_sublist.trans ((distinctBy_go_sublist _ _ _).trans List.filter_sublist)

/-- The writes kept go by line and column, as all writes do. -/
theorem unreadWrites_ordered {path : Path} {t : Text} (hread : v.document = Document.read path t) :
    v.unreadWrites.Pairwise fun a b => a.span.start.order b.span.start = .lt := by
  have hordered := bindings_ordered path t
  rw [← hread] at hordered
  exact hordered.sublist v.unreadWrites_sublist

/-- No variable has two of the writes. -/
theorem unreadWrites_apart (v : View) :
    v.unreadWrites.Pairwise fun a b => bindingKey a ≠ bindingKey b :=
  (distinctBy_go_pairwise bindingKey [] _).2.filter _

theorem isFirstWrite_of_mem_unreadWrites {path : Path} {t : Text}
    (hread : v.document = Document.read path t) {b : Binding} (hb : b ∈ v.unreadWrites) :
    v.document.IsFirstWrite (bindingKey b) b := by
  refine ⟨v.unreadWrites_sublist.subset hb, rfl, ?_⟩
  intro a ha hkey
  have hfind := (mem_distinctBy_iff _ _ _).mp (List.mem_filter.mp hb).1
  have howned : b.scope.isScriptOwned = true :=
    (List.mem_filter.mp (List.mem_of_find?_eq_some hfind)).2
  have hscope : a.scope = b.scope := (bindingKey_eq_iff.mp hkey).1
  have hordered : v.document.bindings.Pairwise
      fun a b => a.span.start.order b.span.start = .lt := hread ▸ bindings_ordered path t
  exact eq_or_rel_of_find? (hordered.filter _) hfind
    (List.mem_filter.mpr ⟨ha, hscope ▸ howned⟩) (beq_iff_eq.mpr hkey)

/-- The variables with a write kept are those that nothing reads. -/
theorem mem_map_unreadWrites {key : Text × Option Nat} : key ∈ v.unreadWrites.map bindingKey
    ↔ ∃ b ∈ v.document.bindings, b.scope.isScriptOwned = true ∧ bindingKey b = key
      ∧ v.isRead b = false := by
  constructor
  · intro h
    obtain ⟨b, hb, hkey⟩ := List.mem_map.mp h
    obtain ⟨hmem, hread⟩ := List.mem_filter.mp hb
    obtain ⟨hbinding, howned⟩ := List.mem_filter.mp ((distinctBy_go_sublist _ _ _).subset hmem)
    exact ⟨b, hbinding, howned, hkey, by simpa using hread⟩
  · rintro ⟨b, hb, howned, rfl, hread⟩
    have hmem : b ∈ v.document.bindings.filter (·.scope.isScriptOwned) :=
      List.mem_filter.mpr ⟨hb, howned⟩
    obtain ⟨c, hc, hkey⟩ :=
      (exists_mem_distinctBy_go bindingKey hmem).resolve_left List.not_mem_nil
    have hcread : v.isRead c = false := (v.isRead_congr hkey).trans hread
    exact List.mem_map.mpr ⟨c, List.mem_filter.mpr ⟨hc, by simp [hcread]⟩, hkey⟩

/-- What is reported of unused variables is what is found, in the same order. -/
theorem filter_diagnostics_unusedVariable {path : Path} {t : Text}
    (hread : v.document = Document.read path t) {severity : Severity}
    (hseverity : v.settings.severityOf .unusedVariable = some severity) :
    v.diagnostics.filter (·.rule == .unusedVariable)
      = v.unusedVariables.map fun f => ⟨severity, f.problem, f.span⟩ := by
  have hall : (v.diagnosticsOf .unusedVariable).filter (·.rule == .unusedVariable)
      = v.diagnosticsOf .unusedVariable := by
    refine List.filter_eq_self.mpr ?_
    intro diagnostic hmem
    exact beq_iff_eq.mpr (rule_of_mem_diagnosticsOf hmem)
  rw [v.filter_diagnostics (fun _ => beq_iff_eq.mp), hall, diagnosticsOf_some hseverity]
  show sortBy Diagnostic.order (v.unusedVariables.map _) = _
  rw [unusedVariables_eq, List.map_map]
  refine sortBy_of_pairwise (List.pairwise_map.mpr ((unreadWrites_ordered hread).imp ?_))
  intro a b hlt
  show ((a.span.start.order b.span.start).then _).isLE = true
  rw [hlt]
  rfl

end View

namespace Workspace

/-- Findings that account for the variables of a script that nothing reads, given by their keys. -/
structure AccountsForUnread (w : Workspace) (d : Document) (keys : List (Text × Option Nat))
    (found : List Finding) : Prop where
  /-- No variable is listed twice. -/
  keys_nodup : keys.Nodup
  /-- No finding is listed twice. -/
  found_nodup : found.Nodup
  /-- The variables are the local, level and game variables that are written and not read. -/
  mem_keys : ∀ key, key ∈ keys ↔ ∃ b ∈ d.bindings, b.scope.isScriptOwned = true
    ∧ View.bindingKey b = key ∧ w.Unread d b
  /-- Each has one finding, on its first write. -/
  placed : List.Forall₂ (fun key f => ∃ b, d.IsFirstWrite key b
    ∧ f = ⟨.unusedVariable b.qualified, b.span⟩) keys found

/-- **UNUSED VARIABLES**: for every tracked script, the findings match one to one the local, level and
    game variables that it writes and nothing reads, each on the first write; and where the rule is
    enabled they are what is reported. -/
theorem unused_variables_accounted (settings : Settings) (root : Path) (disk : Disk)
    (ops : List Operation) (now : Disk) (rules : Settings) {path : Path} {d : Document}
    (hd : ((empty settings root).run disk ops).document? path = some d) :
    ∃ v keys, ((empty settings root).run disk ops).view? now rules path = some v
      ∧ v.document = d
      ∧ ((empty settings root).run disk ops).AccountsForUnread d keys v.unusedVariables
      ∧ ((empty settings root).run disk ops).analyze now rules path = some v.diagnostics
      ∧ ∀ severity, rules.severityOf .unusedVariable = some severity →
        v.diagnostics.filter (·.rule == .unusedVariable)
          = v.unusedVariables.map fun f => ⟨severity, f.problem, f.span⟩ := by
  have hw := (Consistent.empty disk settings root).run ops
  generalize (empty settings root).run disk ops = w at hw hd ⊢
  obtain ⟨v, hv⟩ := exists_view? hd now rules
  obtain ⟨hdocument, rfl, hindex⟩ := view?_spec hv
  obtain rfl : v.document = d := Option.some.inj (hdocument.symm.trans hd)
  obtain ⟨file, t, hread⟩ := hw.exists_read_of_document? hd
  refine ⟨v, v.unreadWrites.map View.bindingKey, hv, rfl, ⟨?_, ?_, ?_, ?_⟩,
    congrArg (Option.map _) hv, ?_⟩
  · exact List.pairwise_map.mpr v.unreadWrites_apart
  · -- findings on different writes stand in different places
    rw [View.unusedVariables_eq]
    refine List.pairwise_map.mpr ((View.unreadWrites_ordered hread).imp ?_)
    intro a b hlt heq
    have hspan : a.span = b.span := congrArg (·.span) heq
    have hself : b.span.start.order b.span.start = .eq := Std.ReflCmp.compare_self
    rw [hspan, hself] at hlt
    exact nomatch hlt
  · intro key
    rw [View.mem_map_unreadWrites]
    refine exists_congr ?_
    intro b
    refine and_congr_right ?_
    intro hb
    rw [hw.isRead_eq_false_iff_unread hindex hread hb]
  · rw [View.unusedVariables_eq, List.forall₂_map_left_iff, List.forall₂_map_right_iff,
      List.forall₂_same]
    intro b hb
    exact ⟨b, View.isFirstWrite_of_mem_unreadWrites hread hb, rfl⟩
  · intro severity hseverity
    exact View.filter_diagnostics_unusedVariable hread hseverity

/-- The thread `main` does not read its `local.x`, which another thread does, and the other script
    reads `level.z`. -/
theorem unused_variables_of_two_threads :
    let a : Path := ⟨"/w/a.scr".toList⟩
    let b : Path := ⟨"/w/b.scr".toList⟩
    let t : Text := ("main:\nlocal.x = 1\nlevel.y = 2\nlocal.x = 3\nend\n"
      ++ "help:\nlocal.x = 4\nlevel.z = local.x\nend").toList
    let w := (empty .default ⟨"/w".toList⟩).run .empty
      [.upsert a t, .upsert b "main:\nwait level.z\nend".toList]
    let found : List Finding := [⟨.unusedVariable "local.x".toList, .onLine 1 6 7⟩,
      ⟨.unusedVariable "level.y".toList, .onLine 2 6 7⟩]
    w.document? a = some (.read a t)
      ∧ (w.view? .empty .default a).map View.unusedVariables = some found
      ∧ ∃ keys, w.AccountsForUnread (.read a t) keys found := by
  intro a b t w found
  obtain ⟨hd, hfound⟩ : w.document? a = some (.read a t)
      ∧ (w.view? .empty .default a).map View.unusedVariables = some found := by decide +kernel
  obtain ⟨v, keys, hv, -, haccounts, -, -⟩ := unused_variables_accounted .default ⟨"/w".toList⟩
    .empty [.upsert a t, .upsert b "main:\nwait level.z\nend".toList] .empty .default hd
  have hlist : v.unusedVariables = found :=
    Option.some.inj ((congrArg (Option.map View.unusedVariables) hv).symm.trans hfound)
  exact ⟨hd, hfound, keys, hlist ▸ haccounts⟩

end Workspace

end ScriptAtlas
