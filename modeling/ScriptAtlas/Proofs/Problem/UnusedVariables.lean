import ScriptAtlas.Proofs.Document.Ownership
import ScriptAtlas.Proofs.Problem.Findings
import ScriptAtlas.Proofs.Symbols.Lookup
import ScriptAtlas.Proofs.Workspace.Consistency

/-! # Unused variables — which local variables are reported

    A local variable is reported at its first write in a thread when nothing
    reads it there.  What counts as a read there is noted while the lexemes go
    by, so what stands to the right of the closing `end` does not count,
    although its line still belongs to the thread.  The route:

    * a range belongs to one binding (`binding_eq_of_span`), and the rule looks at
      the first binding of each variable (`mem_unusedVariables_iff`);
    * a local variable is read where a lexeme that its thread owns reads it
      (`isRead_iff`), and by ownership these are the reads on the lines of the
      thread that do not follow its `end`. -/

namespace ScriptAtlas

open Progress

/-! ## The first write of a local variable -/

/-- A range belongs to one binding. -/
theorem binding_eq_of_span {t : Text} {path : Path} {a b : Binding}
    (ha : a ∈ (Document.read path t).bindings) (hb : b ∈ (Document.read path t).bindings)
    (hspan : a.span = b.span) : a = b := by
  obtain ⟨i, l, hl, ha⟩ := mem_filterMap_sites.mp ha
  obtain ⟨j, m, hm, hb⟩ := mem_filterMap_sites.mp hb
  have hal : a.span = l.span := congrArg (·.span) (Site.of_binding? ha).2.2
  have hbm : b.span = m.span := congrArg (·.span) (Site.of_binding? hb).2.2
  obtain ⟨rfl, rfl⟩ := lexeme_eq_of_span hl hm (hal.symm.trans (hspan.trans hbm))
  exact Option.some.inj (ha.symm.trans hb)

/-- Whether a binding writes the local variable that another one writes, in the same thread. -/
def Binding.sameLocal (a b : Binding) : Bool :=
  a.scope == .threadLocal && a.name == b.name && a.owner == b.owner

/-- Two writes are of one variable when scope and name agree and, for a local one, the thread. -/
theorem View.bindingKey_eq_iff {a b : Binding} : bindingKey a = bindingKey b
    ↔ a.scope = b.scope ∧ a.name = b.name ∧ (b.scope.isThreadScoped = true → a.owner = b.owner) := by
  rw [bindingKey, bindingKey, Prod.mk.injEq, Binding.qualified, Binding.qualified,
    Scope.qualify_inj, and_assoc]
  refine and_congr_right ?_
  intro hscope
  refine and_congr_right ?_
  intro _
  rw [hscope]
  cases b.scope.isThreadScoped with
  | false => simp
  | true => simp

theorem View.bindingKey_beq_iff {a b : Binding} (hb : b.scope = .threadLocal) :
    a.scope.isScriptOwned = true ∧ (bindingKey a == bindingKey b) = true
      ↔ a.sameLocal b = true := by
  rw [beq_iff_eq, bindingKey_eq_iff, Binding.sameLocal, hb]
  simp only [Bool.and_eq_true, beq_iff_eq]
  constructor
  · rintro ⟨-, hscope, hname, howner⟩
    exact ⟨⟨hscope, hname⟩, howner rfl⟩
  · rintro ⟨⟨hscope, hname⟩, howner⟩
    rw [hscope]
    exact ⟨rfl, rfl, hname, fun _ => howner⟩

/-- A local variable is reported at its first write in the thread, if it is not read. -/
theorem View.mem_unusedVariables_iff {v : View} {t : Text} {path : Path}
    (hd : v.document = Document.read path t) {b : Binding} (hb : b ∈ v.document.bindings)
    (hlocal : b.scope = .threadLocal) :
    ⟨.unusedVariable b.qualified, b.span⟩ ∈ v.unusedVariables
      ↔ v.document.bindings.find? (·.sameLocal b) = some b ∧ v.isRead b = false := by
  have hfirst : b ∈ distinctBy bindingKey (v.document.bindings.filter (·.scope.isScriptOwned))
      ↔ v.document.bindings.find? (·.sameLocal b) = some b := by
    rw [mem_distinctBy_iff, List.find?_filter]
    simp only [bindingKey_beq_iff hlocal, Bool.decide_eq_true]
  rw [← hfirst, unusedVariables, List.mem_map]
  constructor
  · rintro ⟨a, ha, hfinding⟩
    obtain ⟨hmem, hread⟩ := List.mem_filter.mp ha
    have hbinding : a ∈ v.document.bindings :=
      (List.mem_filter.mp (List.mem_of_find?_eq_some ((mem_distinctBy_iff _ _ _).mp hmem))).1
    rw [hd] at hb hbinding
    obtain rfl : a = b := binding_eq_of_span hbinding hb (congrArg (·.span) hfinding)
    exact ⟨hmem, by simpa using hread⟩
  · rintro ⟨hmem, hread⟩
    exact ⟨b, List.mem_filter.mpr ⟨hmem, by simpa using hread⟩, rfl⟩

/-! ## Reads -/

/-- In a thread, a variable that appears without being defined is read. -/
theorem Site.of_symbol?_variable {s : Site} {scope : Scope} {name : Text} {k : Nat}
    (howner : s.owner = some k) (h : s.symbol? = some (.ofVariable scope name, false)) :
    s.lexeme.kind = .property scope false ∧ s.lexeme.text = name := by
  rw [symbol?] at h
  cases hkind : s.lexeme.kind with
  | property scope' write =>
      simp only [hkind, howner, Option.isSome_some, Bool.and_true, Option.some.injEq, Prod.mk.injEq,
        Symbol.ofVariable, Symbol.qualified.injEq, Scope.qualify_inj] at h
      obtain ⟨⟨rfl, rfl⟩, rfl⟩ := h
      exact ⟨rfl, rfl⟩
  | _ => simp [hkind, Symbol.ofName, Symbol.ofVariable] at h

/-- A local variable is read where its thread owns a lexeme that reads it. -/
theorem View.isRead_iff {v : View} {t : Text} {path : Path}
    (hd : v.document = Document.read path t) {b : Binding} (hlocal : b.scope = .threadLocal) :
    v.isRead b = true ↔ ∃ i l, (scan t).lexemes[i]? = some l
      ∧ l.kind = .property .threadLocal false ∧ l.text = b.name
      ∧ (upTo (scan t).lexemes i).owner l = some b.owner := by
  have hscoped : Scope.threadLocal.isThreadScoped = true := rfl
  rw [isRead, hlocal, if_pos hscoped, hd, List.any_eq_true]
  constructor
  · rintro ⟨o, ho, hreads⟩
    obtain ⟨i, l, hl, ho⟩ := mem_filterMap_sites.mp ho
    obtain ⟨⟨symbol, isDefinition⟩, hsymbol, rfl⟩ := Option.map_eq_some_iff.mp ho
    simp only [Bool.and_eq_true, Bool.not_eq_true', beq_iff_eq] at hreads
    obtain ⟨⟨rfl, howner⟩, rfl⟩ := hreads
    obtain ⟨hkind, htext⟩ := Site.of_symbol?_variable howner hsymbol
    exact ⟨i, l, hl, hkind, htext, howner⟩
  · rintro ⟨i, l, hl, hkind, htext, howner⟩
    have hsymbol : (Site.ofNumber (scan t).lexemes i l).symbol?
        = some (.ofVariable .threadLocal l.text, false) := by
      rw [Site.symbol?, show (Site.ofNumber _ i l).lexeme.kind = _ from hkind]
      rfl
    refine ⟨⟨.ofVariable .threadLocal l.text, l.span, false, some b.owner⟩, ?_, ?_⟩
    · refine mem_filterMap_sites.mpr ⟨i, l, hl, ?_⟩
      rw [Site.occurrence?, hsymbol, ← howner]
      rfl
    · simp [htext]

/-- A local variable is not read exactly when every lexeme that reads it, on a line of the thread,
    follows the closing `end`. -/
theorem View.isRead_eq_false_iff {v : View} {t : Text} {path : Path}
    (hd : v.document = Document.read path t) {b : Binding} (hlocal : b.scope = .threadLocal) :
    v.isRead b = false ↔ ∀ l ∈ v.document.lexemes, l.kind = .property .threadLocal false →
      l.text = b.name → v.document.threadIndexAt l.line = some b.owner →
      v.document.FollowsEnd l.span.start := by
  rw [← Bool.not_eq_true, isRead_iff hd hlocal, hd]
  constructor
  · intro hunread l hmem hkind htext hline
    obtain ⟨i, hl⟩ := List.mem_iff_getElem?.mp hmem
    -- on a line of the thread, only what follows the closing `end` has no owner
    cases howner : (upTo (scan t).lexemes i).owner l with
    | none => exact followsEnd_of_owner hl howner hline
    | some k =>
        obtain rfl : k = b.owner :=
          Option.some.inj ((threadIndexAt_of_owner path hl howner).symm.trans hline)
        exact absurd ⟨i, l, hl, hkind, htext, howner⟩ hunread
  · rintro hfollows ⟨i, l, hl, hkind, htext, howner⟩
    exact not_followsEnd_of_owner hl howner
      (hfollows l (List.mem_of_getElem? hl) hkind htext (threadIndexAt_of_owner path hl howner))

namespace Workspace

/-- **UNUSED LOCALS**: a local variable is reported at a write exactly when the rule is enabled, the
    write is the first in its thread, and what reads the variable on the lines of the thread follows
    the closing `end`. -/
theorem unusedVariable_reported_iff (settings : Settings) (root : Path) (disk : Disk)
    (ops : List Operation) {rules : Settings} {path : Path} {ds : List Diagnostic} {d : Document}
    {b : Binding} (hds : ((empty settings root).run disk ops).analyze disk rules path = some ds)
    (hd : ((empty settings root).run disk ops).document? path = some d) (hb : b ∈ d.bindings)
    (hlocal : b.scope = .threadLocal) :
    (∃ diagnostic ∈ ds, diagnostic.problem = .unusedVariable b.qualified
        ∧ diagnostic.span = b.span)
      ↔ (rules.severityOf .unusedVariable).isSome = true
        ∧ d.bindings.find? (·.sameLocal b) = some b
        ∧ ∀ l ∈ d.lexemes, l.kind = .property .threadLocal false → l.text = b.name →
            d.threadIndexAt l.line = some b.owner → d.FollowsEnd l.span.start := by
  have hw := (Consistent.empty disk settings root).run ops
  obtain ⟨file, t, hread⟩ := hw.exists_read_of_document? hd
  obtain ⟨v, hv, rfl⟩ := Option.map_eq_some_iff.mp hds
  obtain ⟨hdocument, rfl, -⟩ := view?_spec hv
  obtain rfl : d = v.document := Option.some.inj (hd.symm.trans hdocument)
  rw [← View.isRead_eq_false_iff hread hlocal, ← View.mem_unusedVariables_iff hread hb hlocal]
  constructor
  · rintro ⟨⟨severity, problem, span⟩, hmem, rfl, rfl⟩
    obtain ⟨hseverity, hfinding⟩ := View.mem_diagnostics_iff.mp hmem
    exact ⟨Option.isSome_iff_exists.mpr ⟨severity, hseverity⟩, hfinding⟩
  · rintro ⟨henabled, hfinding⟩
    obtain ⟨severity, hseverity⟩ := Option.isSome_iff_exists.mp henabled
    exact ⟨⟨severity, .unusedVariable b.qualified, b.span⟩,
      View.mem_diagnostics_iff.mpr ⟨hseverity, hfinding⟩, rfl, rfl⟩

/-- Here `x` is read in the thread, and only the operand of `end` reads `y`. -/
theorem unusedVariable_reported_for_end_operand :
    let path : Path := ⟨"/w/a.scr".toList⟩
    let t : Text := "main:\nlocal.y = local.x\nlocal.x = 1\nend local.y".toList
    let d := Document.read path t
    let b : Binding := ⟨.threadLocal, ['y'], 0, .onLine 1 6 7⟩
    d.bindings = [b, ⟨.threadLocal, ['x'], 0, .onLine 2 6 7⟩]
      ∧ ((empty .default ⟨"/w".toList⟩).run .empty [.upsert path t]).analyze .empty .default path
        = some [⟨.hint, .unusedVariable b.qualified, b.span⟩]
      ∧ ∀ l ∈ d.lexemes, l.kind = .property .threadLocal false → l.text = ['y'] →
          d.threadIndexAt l.line = some 0 → d.FollowsEnd l.span.start := by
  intro path t d b
  have hbindings : d.bindings = [b, ⟨.threadLocal, ['x'], 0, .onLine 2 6 7⟩] := by decide +kernel
  have hds : ((empty .default ⟨"/w".toList⟩).run .empty [.upsert path t]).analyze .empty .default
      path = some [⟨.hint, .unusedVariable b.qualified, b.span⟩] := by decide +kernel
  have hd : ((empty .default ⟨"/w".toList⟩).run .empty [.upsert path t]).document? path
      = some d := by decide +kernel
  have hreported := unusedVariable_reported_iff .default ⟨"/w".toList⟩ .empty [.upsert path t] hds
    hd (hbindings ▸ List.mem_cons_self) rfl
  exact ⟨hbindings, hds, (hreported.mp ⟨_, List.mem_singleton_self _, rfl, rfl⟩).2.2⟩

/-- The operand of `end` reads the variable on a line of the thread, and the variable is reported
    all the same. -/
theorem unusedVariable_reported_despite_end :
    let path : Path := ⟨"/w/a.scr".toList⟩
    let w := (empty .default ⟨"/w".toList⟩).run .empty
      [.upsert path "main:\nlocal.x = 1\nend local.x".toList]
    let d := Document.read path "main:\nlocal.x = 1\nend local.x".toList
    let b : Binding := ⟨.threadLocal, ['x'], 0, .onLine 1 6 7⟩
    let l : Lexeme := ⟨2, 10, .property .threadLocal false, ['x']⟩
    w.document? path = some d ∧ b ∈ d.bindings
      ∧ w.analyze .empty .default path
        = some [⟨.hint, .unusedVariable b.qualified, b.span⟩]
      ∧ l ∈ d.lexemes ∧ l.text = b.name ∧ d.threadIndexAt l.line = some b.owner := by
  decide +kernel

end Workspace

end ScriptAtlas
