import ScriptAtlas.Proofs.Document.Ownership
import ScriptAtlas.Proofs.Problem.Findings
import ScriptAtlas.Proofs.Workspace.Consistency
import ScriptAtlas.Workspace.Tokens

/-! # Unused tokens — what the editor fades is what the rules report

    Tokens are marked lexeme by lexeme, by their modifiers; the rules go through
    the threads and labels of a document, by role and name.  Both come down to
    the lexemes that define a name nothing refers to (`Kind.definedType?`):

    * a lexeme's meaning has one of few sets of modifiers (`meaning_cases`), so
      its token is marked exactly for such a lexeme (`isUnused_markedToken_iff`);
    * every header has its thread and every label definition its label, and
      none comes from elsewhere (`exists_thread_iff`, `exists_label_iff`). -/

namespace ScriptAtlas

/-! ## Tokens that are marked -/

namespace Modifiers

theorem contains_union_self (m n : Modifiers) : (m ∪ n).contains n = true := by
  refine beq_iff_eq.mpr (Nat.eq_of_testBit_eq fun i => ?_)
  show ((m.bits ||| n.bits) &&& n.bits).testBit i = n.bits.testBit i
  rw [Nat.testBit_and, Nat.testBit_or]
  cases n.bits.testBit i <;> simp

theorem contains_union_of_disjoint {m n k : Modifiers} (h : n.bits &&& k.bits = 0) :
    (m ∪ n).contains k = m.contains k := by
  show ((m.bits ||| n.bits) &&& k.bits == k.bits) = (m.bits &&& k.bits == k.bits)
  rw [Nat.and_or_distrib_right, h, Nat.or_zero]

end Modifiers

/-- The type of token that a definition has whose name has to be referred to; the engine refers to
    its entry points and callbacks. -/
def Kind.definedType? : Kind → Option TokenType
  | .threadName .plain => some .function
  | .labelDef => some .label
  | _ => none

theorem Kind.definedType?_eq_function_iff {k : Kind} :
    k.definedType? = some .function ↔ k = .threadName .plain := by
  cases k with
  | threadName role => cases role <;> simp [definedType?]
  | _ => simp [definedType?]

theorem Kind.definedType?_eq_label_iff {k : Kind} :
    k.definedType? = some .label ↔ k = .labelDef := by
  cases k with
  | threadName role => cases role <;> simp [definedType?]
  | _ => simp [definedType?]

namespace Token

/-- The range of a token. -/
def span (k : Token) : Span := .onLine k.line k.column (k.column + k.length)

/-- Whether the token is of that type and marked as a definition that nothing refers to. -/
def isUnused (k : Token) (type : TokenType) : Bool :=
  k.type == type && k.modifiers.contains .definition && k.modifiers.contains .unused

theorem isUnused_of_contains {k : Token} (h : k.modifiers.contains .unused = false)
    (type : TokenType) : k.isUnused type = false := by
  rw [isUnused, h, Bool.and_false]

theorem isUnused_union (k : Token) (type : TokenType) :
    ({ k with modifiers := k.modifiers ∪ .unused } : Token).isUnused type
      = (k.type == type && k.modifiers.contains .definition) := by
  rw [isUnused, Modifiers.contains_union_self, Modifiers.contains_union_of_disjoint rfl,
    Bool.and_true]

/-- The modifiers of what neither opens a thread nor defines a label. -/
def plainModifiers : List Modifiers := [.none, .declaration, .read, .write, .builtin]

/-- Nothing but the name of a thread or a label is a definition. -/
theorem meaning_cases (d : Document) (isKnownThread : Text → Bool) (s : Site) :
    (∃ role, s.lexeme.kind = .threadName role
        ∧ meaning d isKnownThread s = (.function, .declaration ∪ .definition ∪ .ofRole role))
      ∨ (s.lexeme.kind = .labelDef ∧ meaning d isKnownThread s = (.label, .definition))
      ∨ (s.lexeme.kind.definedType? = none
        ∧ (meaning d isKnownThread s).2 ∈ plainModifiers) := by
  rw [meaning]
  cases hkind : s.lexeme.kind with
  | threadName role => exact Or.inl ⟨role, rfl, rfl⟩
  | labelDef => exact Or.inr (Or.inl ⟨rfl, rfl⟩)
  | property scope write =>
      refine Or.inr (Or.inr ⟨rfl, ?_⟩)
      cases write with
      | false => simp [plainModifiers]
      | true => simp [plainModifiers]
  | word =>
      refine Or.inr (Or.inr ⟨rfl, ?_⟩)
      dsimp only [meaningOfWord]
      split
      · simp [plainModifiers]
      split
      · simp [plainModifiers]
      split
      · simp [plainModifiers]
      · simp [plainModifiers]
  | _ => exact Or.inr (Or.inr ⟨rfl, by simp [plainModifiers]⟩)

theorem plainModifiers_spec : ∀ m ∈ plainModifiers,
    m.contains .definition = false ∧ m.contains .unused = false := by
  decide

end Token

namespace Workspace

variable {index : SymbolIndex} {d : Document} {s : Site} {type : TokenType}

theorem isUnused_markUnused_iff {k : Token} {l : Lexeme}
    (hk : k.modifiers.contains .unused = false) :
    (markUnused index k l).isUnused type = true
      ↔ (k.type = type ∧ k.modifiers.contains .definition = true)
        ∧ ∃ name, usedName? k l = some name ∧ index.referenceCount name false = 0 := by
  have hbefore := Token.isUnused_of_contains hk type
  rw [markUnused]
  cases usedName? k l with
  | none => simp [hbefore]
  | some name =>
      by_cases hcount : index.referenceCount name false = 0
      · simp [hcount, Token.isUnused_union]
      · simp [hcount, hbefore]

/-- A thread or label that the engine does not refer to is looked up by its name. -/
theorem usedName?_ofLexeme {l : Lexeme} {found : TokenType} (hfound : found ∈ [.function, .label])
    (m : Modifiers) : usedName? (.ofLexeme l (found, m)) l
      = if (m.contains .definition || m.contains .write)
          && !m.contains .entryPoint && !m.contains .engineCallback then some l.text else none := by
  simp only [List.mem_cons, List.not_mem_nil, or_false] at hfound
  rcases hfound with rfl | rfl
  · rfl
  · rfl

/-- The token of a site, marked as unused if nothing refers to its name. -/
def markedToken (index : SymbolIndex) (d : Document) (s : Site) : Token :=
  markUnused index (.ofLexeme s.lexeme (Token.meaning d index.isThread s)) s.lexeme

theorem span_markedToken : (markedToken index d s).span = s.lexeme.span := by
  unfold markedToken markUnused
  split
  · split
    · rfl
    · rfl
  · rfl

/-- A token is marked when its lexeme defines a name of its type that nothing refers to. -/
theorem isUnused_markedToken_iff : (markedToken index d s).isUnused type = true
    ↔ s.lexeme.kind.definedType? = some type ∧ index.referenceCount s.lexeme.text false = 0 := by
  unfold markedToken
  rcases Token.meaning_cases d index.isThread s with
    ⟨role, hkind, hmeaning⟩ | ⟨hkind, hmeaning⟩ | ⟨hkind, hplain⟩
  · have hmodifiers : (Modifiers.declaration ∪ .definition ∪ .ofRole role).contains .unused = false
        ∧ (Modifiers.declaration ∪ .definition ∪ .ofRole role).contains .definition = true := by
      cases role <;> decide
    rw [hmeaning, isUnused_markUnused_iff hmodifiers.1, usedName?_ofLexeme (by decide), hkind]
    cases role with
    | plain =>
        rw [if_pos (by decide)]
        simp [Kind.definedType?, Token.ofLexeme, hmodifiers.2]
    | entryPoint =>
        rw [if_neg (by decide)]
        simp [Kind.definedType?]
    | engineCallback =>
        rw [if_neg (by decide)]
        simp [Kind.definedType?]
  · have hmodifiers : Modifiers.definition.contains .unused = false
        ∧ Modifiers.definition.contains .definition = true := by
      decide
    rw [hmeaning, isUnused_markUnused_iff hmodifiers.1, usedName?_ofLexeme (by decide), hkind,
      if_pos (by decide)]
    simp [Kind.definedType?, Token.ofLexeme, hmodifiers.2]
  · obtain ⟨hdefinition, hunused⟩ := Token.plainModifiers_spec _ hplain
    rw [isUnused_markUnused_iff hunused, hkind]
    simp [Token.ofLexeme, hdefinition]

/-- The tokens of a script are those of its sites. -/
theorem tokenize_eq {w : Workspace} {path file : Path} {t : Text}
    (hd : w.document? path = some (Document.read file t)) :
    w.tokenize path
      = some ((Document.sites t).map (markedToken w.symbolIndex (Document.read file t))) := by
  rw [tokenize, hd, Option.map_some]
  show some (List.zipWith _ ((Document.sites t).map _) (scan t).lexemes) = _
  rw [← lexemes_sites, List.zipWith_map, List.zipWith_self]
  rfl

/-- A range is that of a marked token when a lexeme there defines a name that nothing refers to. -/
theorem exists_isUnused_iff {w : Workspace} {path file : Path} {t : Text} {ts : List Token}
    (hd : w.document? path = some (Document.read file t)) (hts : w.tokenize path = some ts)
    {span : Span} :
    (∃ k ∈ ts, k.isUnused type = true ∧ k.span = span)
      ↔ ∃ l ∈ (scan t).lexemes, l.kind.definedType? = some type
        ∧ w.symbolIndex.referenceCount l.text false = 0 ∧ l.span = span := by
  rw [tokenize_eq hd] at hts
  obtain rfl := Option.some.inj hts
  constructor
  · rintro ⟨k, hk, hunused, rfl⟩
    obtain ⟨s, hs, rfl⟩ := List.mem_map.mp hk
    obtain ⟨i, l, hl, rfl⟩ := mem_sites.mp hs
    obtain ⟨htype, hcount⟩ := isUnused_markedToken_iff.mp hunused
    exact ⟨l, List.mem_of_getElem? hl, htype, hcount,
      (span_markedToken (s := Site.ofNumber (scan t).lexemes i l)).symm⟩
  · rintro ⟨l, hl, htype, hcount, rfl⟩
    obtain ⟨i, hi⟩ := List.mem_iff_getElem?.mp hl
    refine ⟨_, List.mem_map.mpr ⟨_, mem_sites.mpr ⟨i, l, hi, rfl⟩, rfl⟩, ?_, span_markedToken⟩
    exact isUnused_markedToken_iff.mpr ⟨htype, hcount⟩

end Workspace

/-! ## Findings -/

variable {file : Path} {t : Text} {span : Span}

/-- The threads of a document are those of the headers among its lexemes. -/
theorem exists_thread_iff {role : ThreadRole} {name : Text} :
    (∃ th ∈ (Document.read file t).threads, th.role = role ∧ th.name = name ∧ th.span = span)
      ↔ ∃ l ∈ (scan t).lexemes, l.kind = .threadName role ∧ l.text = name ∧ l.span = span := by
  constructor
  · rintro ⟨th, hth, rfl, rfl, rfl⟩
    obtain ⟨i, l, hl, hthread⟩ := mem_filterMap_sites.mp hth
    cases hname : l.kind.isThreadName with
    | false => exact absurd (hthread.symm.trans (thread?_other hname)) (Option.some_ne_none _)
    | true =>
        obtain ⟨role, hkind⟩ := Progress.exists_role hname
        rw [thread?_header hkind (Progress.owner_header hkind)] at hthread
        obtain rfl := Option.some.inj hthread
        exact ⟨l, List.mem_of_getElem? hl, hkind, rfl, rfl⟩
  · rintro ⟨l, hl, hkind, rfl, rfl⟩
    obtain ⟨i, hi⟩ := List.mem_iff_getElem?.mp hl
    have howner := Progress.owner_header (p := Progress.upTo (scan t).lexemes i) hkind
    exact ⟨_, mem_filterMap_sites.mpr ⟨i, l, hi, thread?_header hkind howner⟩, rfl, rfl, rfl⟩

/-- The labels of a document are those that its lexemes define. -/
theorem exists_label_iff {name : Text} :
    (∃ label ∈ (Document.read file t).labels, label.name = name ∧ label.span = span)
      ↔ ∃ l ∈ (scan t).lexemes, l.kind = .labelDef ∧ l.text = name ∧ l.span = span := by
  have hlabels := congrArg ((name, span) ∈ ·) (labels_eq file t)
  simpa [List.mem_map, List.mem_filter, and_assoc] using hlabels

namespace View

variable {v : View}

theorem exists_unusedThread_iff (hread : v.document = Document.read file t)
    (hentry : v.settings.extraEntryPoints = []) :
    (∃ f ∈ v.findings .unusedThread, f.span = span)
      ↔ ∃ l ∈ (scan t).lexemes, l.kind.definedType? = some .function
        ∧ v.index.referenceCount l.text false = 0 ∧ l.span = span := by
  have hoffends (th : Thread) : (!th.role.isEngineInvoked && !v.settings.isExtraEntryPoint th.name
        && v.index.referenceCount th.name false == 0) = true
      ↔ th.role = .plain ∧ v.index.referenceCount th.name false = 0 := by
    simp [Settings.isExtraEntryPoint, hentry, ThreadRole.isEngineInvoked]
  constructor
  · rintro ⟨f, hf, rfl⟩
    obtain ⟨th, hth, rfl⟩ := List.mem_map.mp hf
    obtain ⟨hmem, hth⟩ := List.mem_filter.mp hth
    obtain ⟨hrole, hcount⟩ := (hoffends th).mp hth
    rw [hread] at hmem
    obtain ⟨l, hl, hkind, htext, hspan⟩ := exists_thread_iff.mp ⟨th, hmem, hrole, rfl, rfl⟩
    rw [← htext] at hcount
    exact ⟨l, hl, Kind.definedType?_eq_function_iff.mpr hkind, hcount, hspan⟩
  · rintro ⟨l, hl, hkind, hcount, rfl⟩
    obtain ⟨th, hmem, hrole, hname, hspan⟩ := exists_thread_iff.mpr
      ⟨l, hl, Kind.definedType?_eq_function_iff.mp hkind, rfl, rfl⟩
    rw [← hname] at hcount
    rw [← hread] at hmem
    exact ⟨⟨.unusedThread th.name, th.span⟩, List.mem_map.mpr ⟨th, List.mem_filter.mpr
      ⟨hmem, (hoffends th).mpr ⟨hrole, hcount⟩⟩, rfl⟩, hspan⟩

theorem exists_unusedLabel_iff (hread : v.document = Document.read file t) :
    (∃ f ∈ v.findings .unusedLabel, f.span = span)
      ↔ ∃ l ∈ (scan t).lexemes, l.kind.definedType? = some .label
        ∧ v.index.referenceCount l.text false = 0 ∧ l.span = span := by
  constructor
  · rintro ⟨f, hf, rfl⟩
    obtain ⟨label, hlabel, rfl⟩ := List.mem_map.mp hf
    obtain ⟨hmem, hcount⟩ := List.mem_filter.mp hlabel
    rw [hread] at hmem
    obtain ⟨l, hl, hkind, htext, hspan⟩ := exists_label_iff.mp ⟨label, hmem, rfl, rfl⟩
    rw [← htext] at hcount
    exact ⟨l, hl, Kind.definedType?_eq_label_iff.mpr hkind, beq_iff_eq.mp hcount, hspan⟩
  · rintro ⟨l, hl, hkind, hcount, rfl⟩
    obtain ⟨label, hmem, hname, hspan⟩ := exists_label_iff.mpr
      ⟨l, hl, Kind.definedType?_eq_label_iff.mp hkind, rfl, rfl⟩
    rw [← hname] at hcount
    rw [← hread] at hmem
    exact ⟨⟨.unusedLabel label.name, label.span⟩, List.mem_map.mpr ⟨label, List.mem_filter.mpr
      ⟨hmem, beq_iff_eq.mpr hcount⟩, rfl⟩, hspan⟩

end View

namespace Workspace

/-- **Unused marking.**  With both rules enabled and no further entry points, the ranges of unused
    threads are those of the functions that are marked as unused definitions, and the ranges of
    unused labels those of the labels so marked. -/
theorem unused_tokens_agree_with_findings (settings : Settings) (root : Path) (disk : Disk)
    (ops : List Operation) {path : Path} {d : Document}
    (hd : ((empty settings root).run disk ops).document? path = some d) (now : Disk)
    (rules : Settings) (hthread : (rules.severityOf .unusedThread).isSome = true)
    (hlabel : (rules.severityOf .unusedLabel).isSome = true)
    (hentry : rules.extraEntryPoints = []) :
    ∃ ds ts, ((empty settings root).run disk ops).analyze now rules path = some ds
      ∧ ((empty settings root).run disk ops).tokenize path = some ts
      ∧ ∀ span,
        ((∃ diagnostic ∈ ds, diagnostic.rule = .unusedThread ∧ diagnostic.span = span)
          ↔ ∃ k ∈ ts, k.isUnused .function = true ∧ k.span = span)
        ∧ ((∃ diagnostic ∈ ds, diagnostic.rule = .unusedLabel ∧ diagnostic.span = span)
          ↔ ∃ k ∈ ts, k.isUnused .label = true ∧ k.span = span) := by
  have hw := (Consistent.empty disk settings root).run ops
  generalize (empty settings root).run disk ops = w at hd hw
  obtain ⟨file, t, rfl⟩ := hw.exists_read_of_document? hd
  have hts := tokenize_eq hd
  obtain ⟨v, hv⟩ : ∃ v, w.view? now rules path = some v := ⟨_, congrArg (Option.map _) hd⟩
  obtain ⟨hdocument, rfl, hindex⟩ := view?_spec hv
  have hread : v.document = Document.read file t := Option.some.inj (hdocument.symm.trans hd)
  refine ⟨v.diagnostics, _, congrArg (Option.map _) hv, hts, ?_⟩
  intro span
  rw [View.exists_diagnostic_iff hthread, View.exists_diagnostic_iff hlabel,
    View.exists_unusedThread_iff hread hentry, View.exists_unusedLabel_iff hread,
    exists_isUnused_iff hd hts, exists_isUnused_iff hd hts, hindex]
  exact ⟨Iff.rfl, Iff.rfl⟩

/-- Of two labels one is gone to; of two threads the engine starts one. -/
theorem unused_tokens_of_main_and_spare :
    let path : Path := ⟨"/w/a.scr".toList⟩
    let t : Text := "main:\ngoto near\nnear:\nfar:\nend\nspare:\nend".toList
    let w := (empty .default ⟨"/w".toList⟩).run .empty [.upsert path t]
    w.document? path = some (Document.read path t)
      ∧ w.analyze .empty .default path = some [⟨.hint, .unusedLabel "far".toList, .onLine 3 0 3⟩,
          ⟨.hint, .unusedThread "spare".toList, .onLine 5 0 5⟩]
      ∧ ∃ ts, w.tokenize path = some ts
        ∧ (∃ k ∈ ts, k.isUnused .function = true ∧ k.span = .onLine 5 0 5)
        ∧ (∃ k ∈ ts, k.isUnused .label = true ∧ k.span = .onLine 3 0 3)
        ∧ ¬ ∃ k ∈ ts, k.isUnused .label = true ∧ k.span = .onLine 2 0 4 := by
  intro path t w
  have hd : w.document? path = some (Document.read path t) := by decide +kernel
  have hds : w.analyze .empty .default path = some [⟨.hint, .unusedLabel "far".toList,
      .onLine 3 0 3⟩, ⟨.hint, .unusedThread "spare".toList, .onLine 5 0 5⟩] := by decide +kernel
  obtain ⟨ds, ts, hanalyze, hts, hspans⟩ := unused_tokens_agree_with_findings .default
    ⟨"/w".toList⟩ .empty [.upsert path t] hd .empty .default rfl rfl rfl
  obtain rfl := Option.some.inj (hds.symm.trans hanalyze)
  refine ⟨hd, hds, ts, hts, (hspans _).1.mp ?_, (hspans _).2.mp ?_, fun h => ?_⟩
  · exact ⟨_, List.mem_cons_of_mem _ List.mem_cons_self, rfl, rfl⟩
  · exact ⟨_, List.mem_cons_self, rfl, rfl⟩
  · exact absurd ((hspans _).2.mpr h) (by decide +kernel)

end Workspace

end ScriptAtlas
