import ScriptAtlas.Proofs.Scan.Kinds
import ScriptAtlas.Proofs.Scan.Reading

/-! # Names — every name of a row is written out, and scopes lead to variables

    What is known of one cut is known of the row.  The route:

    * in each way of spelling a cut, a name goes on as long as it can
      (`Spelling.spellOut`), hence in a row (`Reads.spellOut`);
    * behind a scope that is cut alone, the next cut is the dot and its variable
      (`cut_afterScope`); in a header all three are cut together; hence a dot and a
      variable follow every scope of a row (`Reads.lead`);
    * hence two names of a text never touch (`names_apart`), and two lexemes
      behind a scope stands its variable (`scope_leads`). -/

namespace ScriptAtlas

open Vocabulary Text

namespace Scan

variable {c : Context} {t v : Text} {ps : List Piece}

/-- A cut spells its names out. -/
theorem Spelling.spellOut (h : Spelling c v ps) : Piece.SpellOut v ps := by
  cases h with
  | comment _ _ _ => exact (Piece.spellOut_other rfl).mpr (Piece.spellOut_gaps _ _)
  | heading _ _ hnames _ =>
      exact Piece.spellOut_append.mpr ⟨hnames, (Piece.spellOut_other rfl).mpr trivial⟩
  | name _ hname _ => exact Piece.spellOut_name hname trivial
  | dotted _ hname _ => exact (Piece.spellOut_other rfl).mpr (Piece.spellOut_name hname trivial)
  | cross _ hname =>
      refine (Piece.spellOut_other rfl).mpr ((Piece.spellOut_other rfl).mpr ?_)
      rcases hname with rfl | ⟨name, rfl, hname⟩
      · trivial
      · exact Piece.spellOut_name hname trivial
  | string | number | directive | path | operator | stray =>
      exact (Piece.spellOut_other rfl).mpr trivial

/-- A row spells its names out. -/
theorem Reads.spellOut (h : Reads c t ps) : Piece.SpellOut [] ps := by
  induction h with
  | nil c => trivial
  | gap _ _ ih => exact Piece.spellOut_gap.mpr ih
  | @cut c a rest v ps _ hv h ih =>
      refine Piece.spellOut_append.mpr ⟨?_, ih⟩
      rw [List.append_nil, h.texts_eq]
      exact (cut_spelled c hv).pieces.spellOut

/-! ## Scopes -/

/-- Directly behind a scope, a dot and a name are cut as its variable. -/
theorem cut_afterScope {scope : Scope} {u rest : Text} (hin : c.state.inComment = false)
    (hdone : c.done.head? = some (.lexeme (.scopePrefix scope) u))
    (hrest : Shape.startsIdentifier rest = true) :
    (c.cut ('.' :: rest)).pieces = [.lexeme .operator ['.'],
      .lexeme (.property scope (Shape.assignsAfter 0 (rest.drop (Shape.word rest).length)))
        (Shape.word rest)] := by
  -- no matcher before that of dotted names takes a dot
  have hdot : Shape.startsIdentifier ('.' :: rest) = false := rfl
  have hopen : openComment c ('.' :: rest) = none := by
    rw [openComment, hin]
    rfl
  have hheader : threadHeader c ('.' :: rest) = none := by
    rw [threadHeader, hdot, Bool.and_false]
    rfl
  have hlabel : labelDefinition c ('.' :: rest) = none := by
    rw [labelDefinition, hdot, Bool.and_false]
    rfl
  have hreserved : reservedWord c ('.' :: rest) = none := by
    simp [reservedWord, hdot]
  have hscope : scopeWord c ('.' :: rest) = none := rfl
  have hdotted : dottedName c ('.' :: rest) = some (c.keep [.lexeme .operator ['.'],
      .lexeme (.property scope (Shape.assignsAfter 0 (rest.drop (Shape.word rest).length)))
        (Shape.word rest)]) := by
    rw [dottedName, if_pos hrest, hdone]
    rfl
  rw [Context.cut, matchers]
  simp [lineComment, blockComment, stringLiteral, numberLiteral, hopen, hheader, hlabel, hreserved,
    hscope, hdotted, Context.keep]

/-- In a cut every scope leads to its variable, unless the scope is cut alone, before a dot and a
    name. -/
theorem Spelling.lead (h : Spelling c v ps) :
    (∃ scope u rest, ps = [.lexeme (.scopePrefix scope) u] ∧ v = '.' :: rest
      ∧ Shape.startsIdentifier rest = true) ∨ Piece.Lead ps := by
  cases h with
  | comment _ _ _ => exact Or.inr (Piece.lead_other (by simp) (Piece.lead_gaps _))
  | heading _ _ _ hlead =>
      exact Or.inr (Piece.lead_append hlead (Piece.lead_other (by simp) trivial))
  | @name k u hk _ hdot =>
      cases hk with
      | scopePrefix scope =>
          obtain ⟨rest, hv, hrest⟩ := hdot scope rfl
          exact Or.inl ⟨scope, u, rest, rfl, hv, hrest⟩
      | keyword | threadEnd | word => exact Or.inr (Piece.lead_other (by simp) trivial)
  | dotted hk _ _ =>
      refine Or.inr (Piece.lead_other (by simp) (Piece.lead_other ?_ trivial))
      cases hk <;> simp
  | cross _ hname =>
      refine Or.inr (Piece.lead_other (by simp) (Piece.lead_other (by simp) ?_))
      rcases hname with rfl | ⟨name, rfl, -⟩
      · trivial
      · exact Piece.lead_other (by simp) trivial
  | string | number | directive | path | operator | stray =>
      exact Or.inr (Piece.lead_other (by simp) trivial)

/-- In a row every scope leads to its variable. -/
theorem Reads.lead (h : Reads c t ps) : Piece.Lead ps := by
  induction h with
  | nil c => trivial
  | gap _ _ ih => exact Piece.lead_other (by simp) ih
  | @cut c a rest v ps _ hv h ih =>
      have hspelled := cut_spelled c hv
      rcases hspelled.pieces.lead with ⟨scope, u, name, hpieces, rfl, hname⟩ | hlead
      · rw [hpieces]
        refine ⟨?_, ih⟩
        intro scope' u' heq
        obtain ⟨hkind, -⟩ := Piece.lexeme.inj heq
        obtain rfl := Kind.scopePrefix.inj hkind
        -- the next cut is made right behind the scope
        have hin : (c.cut (a :: rest)).state.inComment = false := by
          rw [Bool.eq_false_iff]
          intro hopen
          exact absurd (hspelled.closes hopen) (List.cons_ne_nil _ _)
        have hdone : (c.advance (c.cut (a :: rest))).done.head?
            = some (.lexeme (.scopePrefix scope) u) := by
          rw [Context.advance, hpieces]
          rfl
        cases h with
        | gap ha _ => exact absurd ha (by decide)
        | @cut _ _ _ v' ps' _ _ _ =>
            rw [cut_afterScope hin hdone hname]
            exact ⟨_, _, ps', rfl, rfl⟩
      · exact Piece.lead_append hlead ih

theorem cutRow_isName (s : State) {row u : Text} {k : Kind} {before after : List Piece}
    (hsplit : (cutRow s row).pieces = before ++ .lexeme k u :: after) (hk : k.isName = true) :
    IsName u (Piece.texts after) := by
  have hspells := (cutRow_reads s row).spellOut
  rw [hsplit] at hspells
  have hname := (Piece.spellOut_append.mp hspells).2.1 k u rfl hk
  rw [List.append_nil] at hname
  exact hname

theorem cutRow_lead (s : State) {row u : Text} {scope : Scope} {before after : List Piece}
    (hsplit : (cutRow s row).pieces = before ++ .lexeme (.scopePrefix scope) u :: after) :
    ∃ k name rest, after = .lexeme .operator ['.'] :: .lexeme k name :: rest
      ∧ k.variableScope? = some scope := by
  have hlead := (cutRow_reads s row).lead
  rw [hsplit] at hlead
  exact (Piece.lead_of_append hlead).1 scope u rfl

end Scan

/-! ## The names of a text -/

section Text

variable {t : Text} {i j : Nat} {l m : Lexeme}

/-- A name of a text goes on as long as it can. -/
theorem isName_of_lexeme (h : (scan t).lexemes[i]? = some l) (hl : l.kind.isName = true) :
    ∃ row, (rows t)[l.line]? = some row ∧ IsName l.text (row.drop l.endColumn) := by
  obtain ⟨row, ps, qs, hrow, hpieces, -, -, -, hrest⟩ :=
    Scan.split_line_at_lexeme (take_append_cons_drop h)
  have hname := Scan.cutRow_isName _ hpieces hl
  rw [← hrest] at hname
  exact ⟨row, hrow, hname⟩

/-- Two names of a text never touch. -/
theorem names_apart (hi : (scan t).lexemes[i]? = some l) (hj : (scan t).lexemes[j]? = some m)
    (hl : l.kind.isName = true) (hm : m.kind.isName = true) (hline : l.line = m.line) :
    l.endColumn ≠ m.column := by
  intro htouch
  obtain ⟨row, hrow, hfirst⟩ := isName_of_lexeme hi hl
  obtain ⟨_, -, hsecond⟩ := isName_of_lexeme hj hm
  obtain ⟨-, row', hrow', -, htext⟩ := scan_lexemes_placed (List.mem_of_getElem? hj)
  obtain rfl : row = row' := Option.some.inj (hrow.symm.trans (hline ▸ hrow'))
  -- the character at which the first name stops starts the second
  have hstart := hsecond.start
  have hstop := hfirst.stops
  rw [htouch] at hstop
  cases hrest : row.drop m.column with
  | nil =>
      rw [htext, hrest, List.take_nil] at hstart
      exact Bool.false_ne_true hstart
  | cons a rest =>
      rw [hrest] at hstop htext
      cases hlength : m.length with
      | zero =>
          rw [htext, hlength] at hstart
          exact Bool.false_ne_true hstart
      | succ n =>
          rw [htext, hlength, List.take_succ_cons, Shape.startsIdentifier_cons] at hstart
          exact Bool.false_ne_true
            (hstop.symm.trans (isIdentifierChar_of_isIdentifierStart hstart))

/-- A dot and a variable follow a scope, each at the end of what comes before it. -/
theorem scope_leads {scope : Scope} {before after : List Lexeme}
    (h : (scan t).lexemes = before ++ l :: after) (hkind : l.kind = .scopePrefix scope) :
    ∃ dot ∈ after, ∃ m ∈ after, dot.line = l.line ∧ dot.column = l.endColumn
      ∧ m.line = l.line ∧ m.column = dot.endColumn ∧ m.kind.variableScope? = some scope := by
  obtain ⟨row, ps, qs, -, hpieces, -, hafter, -, -⟩ := Scan.split_line_at_lexeme h
  rw [hkind] at hpieces
  obtain ⟨k, name, rest, rfl, hscope⟩ := Scan.cutRow_lead _ hpieces
  have hmem : ∀ m ∈ Piece.layOut l.line l.endColumn
      (.lexeme .operator ['.'] :: .lexeme k name :: rest), m ∈ after := by
    intro m hm
    rw [← hafter] at hm
    exact (List.mem_filter.mp hm).1
  exact ⟨_, hmem _ List.mem_cons_self, _, hmem _ (List.mem_cons_of_mem _ List.mem_cons_self), rfl,
    rfl, rfl, rfl, hscope⟩

end Text

end ScriptAtlas
