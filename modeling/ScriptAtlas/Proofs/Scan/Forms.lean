import ScriptAtlas.Proofs.Scan.Covering

/-! # Forms — what a cut can be

    There are thirteen matchers, and what they cut comes in twelve forms.  Each
    form says which pieces are cut, what becomes of the state, and what the
    matcher has looked at before it cut them.  Whatever is to be known about
    every cut follows from its form, case by case (`cut_form`). -/

namespace ScriptAtlas

open Vocabulary Text

/-- A piece that may stand between the name and the colon of a header. -/
inductive Piece.InHeader : Piece → Prop
  | gap (t : Text) : InHeader (.gap t)
  | sign {op : Text} (h : op ∈ [[','], ['('], [')'], ['.']]) : InHeader (.lexeme .operator op)
  | scope (scope : Scope) (t : Text) : InHeader (.lexeme (.scopePrefix scope) t)
  | parameter (scope : Scope) (t : Text) : InHeader (.lexeme (.parameter scope) t)

/-- An empty gap is no piece at all, so a piece of a gap is the gap. -/
theorem Piece.mem_gaps {t : Text} {p : Piece} (h : p ∈ Piece.gaps t) : p = .gap t := by
  rw [Piece.gaps] at h
  split at h
  · exact absurd h List.not_mem_nil
  · exact List.mem_singleton.mp h

theorem Piece.layOut_gaps (line column : Nat) (u : Text) : layOut line column (gaps u) = [] := by
  unfold gaps
  split
  · rfl
  · rfl

namespace Header

/-- All that is taken from the runs of a header may stand in one. -/
theorem Takes.inHeader {rs : List Text} {ps : List Piece} {rest : List Text}
    (h : Takes rs ps rest) : ∀ p ∈ ps, p.InHeader := by
  have hsigns : ∀ op ∈ [['('], [','], [')']], op ∈ [[','], ['('], [')'], ['.']] := by decide
  induction h with
  | stop rs => exact List.forall_mem_nil _
  | blank _ _ ih => exact List.forall_mem_cons.mpr ⟨.gap _, ih⟩
  | sign hop _ ih => exact List.forall_mem_cons.mpr ⟨.sign (hsigns _ hop), ih⟩
  | parameter scope r name _ _ _ ih =>
      refine List.forall_mem_cons.mpr ⟨.scope scope r, List.forall_mem_cons.mpr ⟨?_, ?_⟩⟩
      · exact .sign (by decide)
      · exact List.forall_mem_cons.mpr ⟨.parameter scope name, ih⟩

/-- Between the name and the colon of a header stand parameters with their scopes, a few signs and
    blanks. -/
theorem inHeader_middle {t : Text} {h : Header} (hh : ofText? t = some h) :
    ∀ p ∈ h.middle, p.InHeader := by
  obtain ⟨-, rest, htakes, -⟩ := takes_of_ofText? hh
  exact htakes.inHeader

end Header

/-- The characters of a word are those of identifiers. -/
theorem Shape.isIdentifierChar_of_mem_word {t : Text} : ∀ a ∈ word t, isIdentifierChar a = true :=
  List.all_eq_true.mp List.all_takeWhile

namespace Scan

/-- The kinds of lexemes that are cut alone and mean nothing to the state of the scan. -/
inductive IsSolitary : Kind → Prop
  | string : IsSolitary .string
  | number : IsSolitary .number
  | directive : IsSolitary .directive
  | scopePrefix (scope : Scope) : IsSolitary (.scopePrefix scope)
  | stray : IsSolitary .stray

/-- The kinds of names after a dot. -/
inductive IsDotted : Kind → Prop
  | property (scope : Scope) (write : Bool) : IsDotted (.property scope write)
  | member : IsDotted .member

/-- What can be cut off a text at a place. -/
inductive Cut.Form (c : Context) (t : Text) : Cut → Prop
  /-- A comment and the blanks after it; a comment may be open from then on, or no longer. -/
  | comment {ps : List Piece} (inComment : Bool) (h : ∀ p ∈ ps, p.isSignificant = false) :
      Form c t ⟨ps, { c.state with inComment }⟩
  | solitary {k : Kind} (u : Text) (h : IsSolitary k) : Form c t (c.keep [.lexeme k u])
  /-- The header of a thread, which starts a row. -/
  | header {h : Header} (role : ThreadRole) (hh : Header.ofText? t = some h) (hdone : c.done = []) :
      Form c t ⟨h.pieces (.threadName role),
        { c.state with threadOpen := true, depth := 0, bracelessPending := false }⟩
  /-- A label of the open thread that is written like a header. -/
  | bareLabel {h : Header} (hh : Header.ofText? t = some h) (hbare : h.isBare = true)
      (hopen : c.state.threadOpen = true) : Form c t (c.keep (h.pieces .labelDef))
  | label (name gap : Text) (hopen : c.state.threadOpen = true) :
      Form c t (c.keep (.lexeme .labelDef name :: Piece.gaps gap ++ [.lexeme .operator [':']]))
  /-- A reserved word; an `end` among them closes no thread. -/
  | keyword {u : Text} (h : sameName u "end".toList = true → c.closesThread = false) :
      Form c t (c.keep [.lexeme .keyword u])
  | threadEnd (u : Text) (h : c.closesThread = true) :
      Form c t ⟨[.lexeme .threadEnd u], { c.state with threadOpen := false }⟩
  | dotted {k : Kind} (u : Text) (h : IsDotted k) :
      Form c t (c.keep [.lexeme .operator ['.'], .lexeme k u])
  | path (u : Text) : Form c t (c.keep [.lexeme .pathRef u])
  /-- A path and a double colon, with a name after them if one starts there. -/
  | cross (u rest : Text) :
      Form c t (c.keep (.lexeme .pathRef u :: .lexeme .operator [':', ':'] :: crossName rest))
  | word : Form c t (c.keep [.lexeme .word (Shape.word t)])
  | operator (op : Text) :
      Form c t ⟨[.lexeme .operator op], { c.state with depth := depthAfter op c.state.depth }⟩

variable {c : Context} {t : Text} {cut : Cut}

/-- Neither a comment nor the blanks behind it count. -/
theorem isSignificant_restAsComment (t : Text) :
    ∀ p ∈ restAsComment t, p.isSignificant = false := by
  refine List.forall_mem_cons.mpr ⟨rfl, ?_⟩
  intro p hp
  rw [Piece.mem_gaps hp]
  rfl

/-- A comment from an earlier row, closed or not. -/
theorem openComment_form (h : openComment c t = some cut) : cut.Form c t := by
  unfold openComment at h
  split at h
  · split at h
    · rw [← Option.some.inj h]
      exact .comment false (List.forall_mem_singleton.mpr rfl)
    · rw [← Option.some.inj h]
      exact .comment c.state.inComment (isSignificant_restAsComment t)
  · exact nomatch h

/-- A comment to the end of the row. -/
theorem lineComment_form (h : lineComment c t = some cut) : cut.Form c t := by
  unfold lineComment at h
  split at h
  · rw [← Option.some.inj h]
    exact .comment c.state.inComment (isSignificant_restAsComment _)
  · exact nomatch h

/-- A comment that starts here, closed or not. -/
theorem blockComment_form (h : blockComment c t = some cut) : cut.Form c t := by
  unfold blockComment at h
  split at h
  · split at h
    · rw [← Option.some.inj h]
      exact .comment c.state.inComment (List.forall_mem_singleton.mpr rfl)
    · rw [← Option.some.inj h]
      exact .comment true (isSignificant_restAsComment _)
  · exact nomatch h

/-- A string stands alone. -/
theorem stringLiteral_form (h : stringLiteral c t = some cut) : cut.Form c t := by
  unfold stringLiteral at h
  split at h
  · rw [← Option.some.inj h]
    exact .solitary _ .string
  · exact nomatch h

/-- So does a number. -/
theorem numberLiteral_form (h : numberLiteral c t = some cut) : cut.Form c t := by
  unfold numberLiteral at h
  split at h
  · rw [← Option.some.inj h]
    exact .solitary _ .number
  · exact nomatch h

/-- A header opens a thread, or makes a label inside of one. -/
theorem threadHeader_form (h : threadHeader c t = some cut) : cut.Form c t := by
  unfold threadHeader at h
  split at h
  · rename_i hcond
    simp only [Bool.and_eq_true] at hcond
    split at h
    · exact nomatch h
    · rename_i header hheader
      split at h
      · exact nomatch h
      · split at h
        · rename_i hlabel
          rw [← Option.some.inj h]
          rw [Bool.and_eq_true] at hlabel
          exact .bareLabel hheader hlabel.2 hlabel.1
        · rw [← Option.some.inj h]
          exact .header _ hheader (List.isEmpty_iff.mp hcond.1.1)
  · exact nomatch h

/-- A label is a word, a gap and a colon. -/
theorem labelDefinition_form (h : labelDefinition c t = some cut) : cut.Form c t := by
  unfold labelDefinition at h
  split at h
  · rename_i hcond
    simp only [Bool.and_eq_true] at hcond
    dsimp only at h
    split at h
    · rw [← Option.some.inj h]
      exact .label _ _ hcond.1.1.2
    · exact nomatch h
  · exact nomatch h

/-- The one matcher that decides an `end`. -/
theorem reservedWord_form (h : reservedWord c t = some cut) : cut.Form c t := by
  unfold reservedWord at h
  split at h
  · dsimp only at h
    split at h
    · rw [← Option.some.inj h]
      exact .solitary _ .directive
    · exact nomatch h
  · dsimp only at h
    split at h
    · split at h
      · rename_i hcloses
        rw [← Option.some.inj h]
        exact .threadEnd _ (Bool.and_eq_true_iff.mp hcloses).2
      · rename_i hkeeps
        rw [← Option.some.inj h]
        refine .keyword fun hend => Bool.eq_false_iff.mpr fun hcloses => ?_
        exact hkeeps (Bool.and_eq_true_iff.mpr ⟨hend, hcloses⟩)
    · exact nomatch h

/-- A scope, before the dot that is cut next. -/
theorem scopeWord_form (h : scopeWord c t = some cut) : cut.Form c t := by
  unfold scopeWord at h
  dsimp only at h
  split at h
  · split at h
    · rw [← Option.some.inj h]
      exact .solitary _ (.scopePrefix _)
    · exact nomatch h
  · exact nomatch h

/-- The name behind a dot is a property or a member. -/
theorem isDotted_of_dottedKind {previous : Option Piece} {afterName : Text} {k : Kind}
    (h : dottedKind previous afterName = some k) : IsDotted k := by
  unfold dottedKind at h
  split at h
  · rw [← Option.some.inj h]
    exact .property _ _
  · rw [← Option.some.inj h]
    exact .member
  · rw [← Option.some.inj h]
    exact .member
  · rw [← Option.some.inj h]
    exact .member
  · rw [← Option.some.inj h]
    exact .member
  · split at h
    · rw [← Option.some.inj h]
      exact .member
    · exact nomatch h
  · exact nomatch h

/-- A dot and the name behind it. -/
theorem dottedName_form (h : dottedName c t = some cut) : cut.Form c t := by
  unfold dottedName at h
  split at h
  · split at h
    · obtain ⟨kind, hkind, rfl⟩ := Option.map_eq_some_iff.mp h
      exact .dotted _ (isDotted_of_dottedKind hkind)
    · exact nomatch h
  · exact nomatch h

/-- A path, alone or with a thread in it. -/
theorem pathReference_form (h : pathReference c t = some cut) : cut.Form c t := by
  unfold pathReference at h
  split at h
  · exact nomatch h
  · rename_i path hpath
    split at h
    · rw [← Option.some.inj h]
      exact .cross _ _
    · rw [← Option.some.inj h]
      exact .path _

theorem plainWord_form (h : plainWord c t = some cut) : cut.Form c t := by
  unfold plainWord at h
  split at h
  · rw [← Option.some.inj h]
    exact .word
  · exact nomatch h

/-- An operator changes the depth and nothing else. -/
theorem operatorSign_form (h : operatorSign c t = some cut) : cut.Form c t := by
  obtain ⟨op, -, rfl⟩ := Option.map_eq_some_iff.mp h
  exact .operator op

/-- Every cut has one of the forms. -/
theorem cut_form (c : Context) (t : Text) : (c.cut t).Form c t := by
  refine cut_induction (P := fun cut => cut.Form c t) c t ?_ ?_
  · intro m hm cut h
    simp only [matchers, List.mem_cons, List.not_mem_nil, or_false] at hm
    rcases hm with rfl | rfl | rfl | rfl | rfl | rfl | rfl | rfl | rfl | rfl | rfl | rfl | rfl
    · exact openComment_form h
    · exact lineComment_form h
    · exact blockComment_form h
    · exact stringLiteral_form h
    · exact numberLiteral_form h
    · exact threadHeader_form h
    · exact labelDefinition_form h
    · exact reservedWord_form h
    · exact scopeWord_form h
    · exact dottedName_form h
    · exact pathReference_form h
    · exact plainWord_form h
    · exact operatorSign_form h
  · exact .solitary _ .stray

end Scan

end ScriptAtlas
