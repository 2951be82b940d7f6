import ScriptAtlas.Proofs.Document.Cursor
import ScriptAtlas.Proofs.Scan.Names
import ScriptAtlas.Proofs.Symbols.Lookup

/-! # Occurrences — the symbol under the cursor is the one that occurs there

    A document lists its occurrences with their symbols; the cursor yields a
    written name, from which a symbol is read back.  The route:

    * two names never touch, so of the lexemes under the cursor one names a
      symbol (`symbolAt_of_names`);
    * the text of that lexeme is written so that its symbol is read back from it
      (`exists_symbolText`);
    * a scope stands for the variable two lexemes behind it
      (`exists_variable_of_scope`). -/

namespace ScriptAtlas

open Vocabulary

/-- What names a symbol is written like an identifier. -/
theorem Kind.isName_of_namesSymbol {k : Kind} (h : Document.namesSymbol k = true) :
    k.isName = true := by
  cases k with
  | threadName _ | labelDef | parameter _ | scopePrefix _ | property _ _ | crossRefName | word => rfl
  | _ => exact nomatch h

section Text

variable {t : Text} {i : Nat} {l : Lexeme} {cursor : Position}

/-- A lexeme that names a symbol answers a cursor at either end and in between. -/
theorem symbolAt_of_names (path : Path) (hl : (scan t).lexemes[i]? = some l)
    (hnames : Document.namesSymbol l.kind = true) (hcovers : l.span.covers cursor = true) :
    (Document.read path t).symbolAt cursor = (Document.read path t).symbolText i l := by
  refine symbolAt_eq_symbolText path hl hnames hcovers ?_
  intro j m hji hm hm'
  rw [Bool.eq_false_iff]
  intro hfirst
  -- both lie under the cursor, so the first ends where the second starts
  have hbefore := standsBefore_of_lt hm hl hji
  rw [Lexeme.covers_iff] at hcovers hm'
  have hline : m.line = l.line := hm'.1.symm.trans hcovers.1
  refine names_apart hm hl (Kind.isName_of_namesSymbol hfirst) (Kind.isName_of_namesSymbol hnames)
    hline ?_
  rcases hbefore with hlt | ⟨-, hcolumn⟩
  · exact absurd hline (Nat.ne_of_lt hlt)
  · omega

/-- A name has neither dots nor colons, and it has characters. -/
theorem isPlainName_of_lexeme (hl : (scan t).lexemes[i]? = some l) (hname : l.kind.isName = true) :
    IsPlainName l.text ∧ l.text ≠ [] := by
  obtain ⟨row, -, hwritten⟩ := isName_of_lexeme hl hname
  refine ⟨isPlainName_of_identifier hwritten.chars, ?_⟩
  intro hnil
  have hstart := hwritten.start
  rw [hnil] at hstart
  exact Bool.false_ne_true hstart

/-- The path of a cross reference stands two lexemes before its name. -/
theorem symbolText_crossRefName (path : Path) (hl : (scan t).lexemes[i]? = some l)
    (hkind : l.kind = .crossRefName) : ∃ raw,
      (Document.read path t).symbolText i l = some (raw ++ ':' :: ':' :: l.text) := by
  obtain ⟨n, file, colons, rfl, hfile, -⟩ := exists_path_of_crossRefName hl hkind
  refine ⟨file.text, ?_⟩
  rw [Document.symbolText, hkind]
  dsimp only
  rw [if_neg (by omega), Nat.add_sub_cancel]
  show (scan t).lexemes[n]?.map _ = _
  rw [hfile]
  rfl

/-- What is written under the cursor has the symbol that occurs there. -/
theorem exists_symbolText (path : Path) (hl : (scan t).lexemes[i]? = some l) {symbol : Symbol}
    {isDefinition : Bool}
    (hsymbol : (Site.ofNumber (scan t).lexemes i l).symbol? = some (symbol, isDefinition)) :
    Document.namesSymbol l.kind = true ∧ ∃ name,
      (Document.read path t).symbolText i l = some name ∧ SymbolIndex.symbolOf name = symbol := by
  have hplain := isPlainName_of_lexeme hl
  have hlexeme : (Site.ofNumber (scan t).lexemes i l).lexeme = l := rfl
  rw [Site.symbol?, hlexeme] at hsymbol
  cases hkind : l.kind with
  | threadName _ | labelDef | word =>
      rw [hkind] at hsymbol
      obtain ⟨rfl, -⟩ := Prod.mk.inj (Option.some.inj hsymbol)
      refine ⟨rfl, l.text, ?_, (hplain (by rw [hkind]; rfl)).1.symbolOf_eq⟩
      rw [Document.symbolText, hkind]
  | parameter scope | property scope _ =>
      rw [hkind] at hsymbol
      obtain ⟨rfl, -⟩ := Prod.mk.inj (Option.some.inj hsymbol)
      obtain ⟨hname, hne⟩ := hplain (by rw [hkind]; rfl)
      refine ⟨rfl, scope.qualify l.text, ?_, SymbolIndex.symbolOf_qualify hname hne scope⟩
      rw [Document.symbolText, hkind]
  | crossRefName =>
      rw [hkind] at hsymbol
      obtain ⟨rfl, -⟩ := Prod.mk.inj (Option.some.inj hsymbol)
      obtain ⟨raw, htext⟩ := symbolText_crossRefName path hl hkind
      exact ⟨rfl, _, htext, SymbolIndex.symbolOf_cross (hplain (by rw [hkind]; rfl)).1 raw⟩
  | _ =>
      rw [hkind] at hsymbol
      exact absurd hsymbol.symm (Option.some_ne_none _)

/-- A lexeme that starts where another ends follows it at once. -/
theorem number_succ_of_touch {j : Nat} {m : Lexeme} (hi : (scan t).lexemes[i]? = some l)
    (hj : (scan t).lexemes[j]? = some m) (hij : i < j) (hline : m.line = l.line)
    (hcolumn : m.column = l.endColumn) : i + 1 = j := by
  -- a cursor between the two lies in both
  have hfirst : l.span.covers ⟨l.line, l.endColumn⟩ = true :=
    Lexeme.covers_iff.mpr ⟨rfl, Nat.le_add_right _ _, Nat.le_refl _⟩
  have hsecond : m.span.covers ⟨l.line, l.endColumn⟩ = true := by
    refine Lexeme.covers_iff.mpr ⟨hline.symm, Nat.le_of_eq hcolumn, ?_⟩
    rw [← hcolumn]
    exact Nat.le_add_right _ _
  exact number_succ_of_covers hi hj hij hfirst hsecond

/-- Two lexemes behind a scope stands its variable, on the same line. -/
theorem exists_variable_of_scope (hl : (scan t).lexemes[i]? = some l) {scope : Scope}
    (hkind : l.kind = .scopePrefix scope) : ∃ m, (scan t).lexemes[i + 2]? = some m
      ∧ m.line = l.line ∧ m.kind.variableScope? = some scope := by
  obtain ⟨dot, hdot, m, hm, hline, hcolumn, hline', hcolumn', hscope⟩ :=
    scope_leads (take_append_cons_drop hl) hkind
  obtain ⟨a, ha⟩ := List.mem_iff_getElem?.mp hdot
  obtain ⟨b, hb⟩ := List.mem_iff_getElem?.mp hm
  rw [List.getElem?_drop] at ha hb
  obtain rfl : a = 0 := by
    have hnext := number_succ_of_touch hl ha (by omega) hline hcolumn
    omega
  have hlater : i + 1 < i + 1 + b := by
    by_contra hnot
    obtain rfl : b = 0 := by omega
    obtain rfl : dot = m := Option.some.inj (ha.symm.trans hb)
    have hlength := (scan_lexemes_placed (List.mem_of_getElem? hb)).1
    rw [Lexeme.endColumn] at hcolumn'
    omega
  have hnext := number_succ_of_touch ha hb hlater (hline'.trans hline.symm) hcolumn'
  rw [← hnext] at hb
  exact ⟨m, hb, hline', hscope⟩

end Text

theorem Kind.variableScope?_eq_some_iff {k : Kind} {scope : Scope} :
    k.variableScope? = some scope
      ↔ (∃ write, k = .property scope write) ∨ k = .parameter scope := by
  cases k <;> simp [variableScope?]

/-- **THE SYMBOL UNDER THE CURSOR**: wherever the cursor stands in the range of an occurrence, ends
    included, a name is found there whose symbol is that of the occurrence.  In a scope it is the
    symbol of the variable two lexemes behind it, which always stands there on the same line. -/
theorem Document.symbolAt_agrees_with_occurrences (path : Path) (t : Text) :
    (∀ o ∈ (Document.read path t).occurrences, ∀ column, o.span.start.column ≤ column →
      column ≤ o.span.stop.column → ∃ name,
        (Document.read path t).symbolAt ⟨o.span.start.line, column⟩ = some name
          ∧ SymbolIndex.symbolOf name = o.symbol)
    ∧ ∀ (i : Nat) (l : Lexeme) (scope : Scope), (Document.read path t).lexemes[i]? = some l →
      l.kind = .scopePrefix scope → ∃ m : Lexeme, (Document.read path t).lexemes[i + 2]? = some m
        ∧ m.line = l.line
        ∧ ((∃ write, m.kind = .property scope write) ∨ m.kind = .parameter scope)
        ∧ ∀ column, l.column ≤ column → column ≤ l.endColumn → ∃ name,
          (Document.read path t).symbolAt ⟨l.line, column⟩ = some name
            ∧ SymbolIndex.symbolOf name = .ofVariable scope m.text := by
  constructor
  · intro o ho column hstart hstop
    obtain ⟨i, l, hl, ho⟩ := mem_filterMap_sites.mp ho
    obtain ⟨⟨symbol, isDefinition⟩, hsymbol, rfl⟩ := Option.map_eq_some_iff.mp ho
    obtain ⟨hnames, name, htext, hname⟩ := exists_symbolText path hl hsymbol
    refine ⟨name, ?_, hname⟩
    rw [← htext]
    exact symbolAt_of_names path hl hnames (Lexeme.covers_iff.mpr ⟨rfl, hstart, hstop⟩)
  · intro i l scope hl hkind
    obtain ⟨m, hm, hline, hscope⟩ := exists_variable_of_scope hl hkind
    refine ⟨m, hm, hline, Kind.variableScope?_eq_some_iff.mp hscope, ?_⟩
    intro column hstart hstop
    have hisName : m.kind.isName = true := by
      rcases Kind.variableScope?_eq_some_iff.mp hscope with ⟨write, hk⟩ | hk
      · rw [hk]
        rfl
      · rw [hk]
        rfl
    -- a plain name has no dot and no colons, so it can be read back from the qualified one
    obtain ⟨hplain, hne⟩ := isPlainName_of_lexeme hm hisName
    refine ⟨scope.qualify m.text, ?_, SymbolIndex.symbolOf_qualify hplain hne scope⟩
    rw [symbolAt_of_names path hl (by rw [hkind]; rfl)
      (Lexeme.covers_iff.mpr ⟨rfl, hstart, hstop⟩), Document.symbolText, hkind]
    show (scan t).lexemes[i + 2]?.map _ = _
    rw [hm]
    rfl

/-- At the end of a name behind `::`, and between a scope and its dot in a header. -/
theorem Document.symbolAt_of_crossReference_and_parameter :
    let t : Text := "main local.a:\n  level.b=g/u.scr::run".toList
    let d := Document.read ⟨[]⟩ t
    let o : Occurrence := ⟨.bare "run".toList, .onLine 1 19 22, false, some 0⟩
    let l : Lexeme := ⟨0, 5, .scopePrefix .threadLocal, "local".toList⟩
    o ∈ d.occurrences
      ∧ (∃ name, d.symbolAt ⟨1, 22⟩ = some name ∧ SymbolIndex.symbolOf name = o.symbol)
      ∧ d.lexemes[1]? = some l
      ∧ ∃ m, d.lexemes[3]? = some m ∧ ∃ name, d.symbolAt ⟨0, 10⟩ = some name
        ∧ SymbolIndex.symbolOf name = .ofVariable .threadLocal m.text := by
  intro t d o l
  obtain ⟨ho, hl⟩ : o ∈ d.occurrences ∧ d.lexemes[1]? = some l := by decide +kernel
  obtain ⟨hoccurrences, hscopes⟩ := Document.symbolAt_agrees_with_occurrences ⟨[]⟩ t
  obtain ⟨m, hm, -, -, hsymbol⟩ := hscopes 1 l .threadLocal hl rfl
  exact ⟨ho, hoccurrences o ho 22 (by decide) (by decide), hl, m, hm,
    hsymbol 10 (by decide) (by decide)⟩

end ScriptAtlas
