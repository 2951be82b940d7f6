import ScriptAtlas.Proofs.Scan.ThreadExtent
import ScriptAtlas.Proofs.Scan.TrailingBlank

/-! # Line ends — a carriage return before each line feed

    A row ends at a line feed, so a carriage return before it is a blank at the
    end of the row.  Such a blank is seen by one matcher only: a string that
    nothing closes takes it in.

    * `Piece.Prolongs` says where the blank goes among the pieces of a row, and
      `Cut.Prolongs` the same of one cut; each matcher keeps to it
      (`cut_prolongs`), and so does the reading of a row (`cutFrom_prolongs`).
    * The end of a row sees no difference (`afterRow_append`), so the next row
      starts in the same state.
    * Row by row this gives the scan of the whole text (`scan_withReturns`). -/

namespace ScriptAtlas

open Vocabulary Text

variable {b : Char}

/-! ## Pieces that take a blank in -/

namespace Piece

/-- Whether the piece is a string without its closing quote. -/
def isOpen : Piece → Bool
  | gap _ => false
  | lexeme k t => k == .string && !Shape.closes t.tail

/-- The pieces of a row with a blank at its end: the blank goes into a gap, or into the string that
    nothing closes. -/
inductive Prolongs (b : Char) : List Piece → List Piece → Prop
  | gap {ps : List Piece} (hps : ∀ p ∈ ps, p.isOpen = false) (u : Text) :
      Prolongs b (ps ++ gaps u) (ps ++ gaps (u ++ [b]))
  | string {ps : List Piece} (hps : ∀ p ∈ ps, p.isOpen = false) {u : Text}
      (hu : (lexeme .string u).isOpen = true) :
      Prolongs b (ps ++ [lexeme .string u]) (ps ++ [lexeme .string (u ++ [b])])

/-- A gap is no string and no comment. -/
theorem isOpen_gaps (u : Text) : ∀ p ∈ gaps u, p.isOpen = false := by
  intro p hp
  rw [mem_gaps hp]
  rfl

/-- Nor is anything in a header. -/
theorem InHeader.isOpen {p : Piece} (h : p.InHeader) : p.isOpen = false := by
  cases h <;> rfl

/-- What stands before stays the same, if nothing in it is open. -/
theorem Prolongs.append {ps qs qs' : List Piece} (hps : ∀ p ∈ ps, p.isOpen = false)
    (h : Prolongs b qs qs') : Prolongs b (ps ++ qs) (ps ++ qs') := by
  cases h with
  | gap hqs u =>
      rw [← List.append_assoc, ← List.append_assoc]
      exact .gap (List.forall_mem_append.mpr ⟨hps, hqs⟩) u
  | string hqs hu =>
      rw [← List.append_assoc, ← List.append_assoc]
      exact .string (List.forall_mem_append.mpr ⟨hps, hqs⟩) hu

/-- Prolonged pieces make up the text with the blank at its end. -/
theorem Prolongs.texts {ps ps' : List Piece} (h : Prolongs b ps ps') :
    texts ps' = texts ps ++ [b] := by
  cases h with
  | gap _ u => rw [texts_append, texts_append, texts_gaps, texts_gaps, List.append_assoc]
  | string _ _ => simp [texts_append, text]

end Piece

namespace Scan

/-! ## What the matchers cut -/

/-- The cuts of a text without and with a blank at its end: they are the same, or they take all of
    the text and the blank with it. -/
inductive Cut.Prolongs (b : Char) (t : Text) : Cut → Cut → Prop
  | same {cut : Cut} (h : ∀ p ∈ cut.pieces, p.isOpen = false) : Prolongs b t cut cut
  | whole {ps ps' : List Piece} (s : State) (h : Piece.Prolongs b ps ps')
      (ht : Piece.texts ps = t) : Prolongs b t ⟨ps, s⟩ ⟨ps', s⟩

/-- A cut in which nothing is open stays as it is. -/
theorem Cut.Prolongs.rel_self {found : Option Cut} {t : Text}
    (h : ∀ cut, found = some cut → ∀ p ∈ cut.pieces, p.isOpen = false) :
    Option.Rel (Cut.Prolongs b t) found found := by
  cases found with
  | none => exact .none
  | some cut => exact .some (.same (h cut rfl))

/-- A beginning without blanks that the longer text has, the text has too. -/
theorem eq_append_of_append_blank (hb : isBlank b = true) {t u v : Text}
    (hu : u.any isBlank = false) (h : t ++ [b] = u ++ v) : ∃ w, t = u ++ w ∧ v = w ++ [b] := by
  rcases List.append_eq_append_iff.mp h with ⟨w, rfl, hw⟩ | ⟨w, rfl, hw⟩
  · cases w with
    | nil => exact ⟨[], by simp, hw.symm⟩
    | cons a w =>
        obtain ⟨rfl, -⟩ := List.cons.inj hw
        exact absurd hb (List.any_eq_false.mp hu b (by simp))
  · exact ⟨w, rfl, hw⟩

/-- Nothing in a header is open. -/
theorem header_isOpen {t : Text} {h : Header} {k : Kind} (hh : Header.ofText? t = some h)
    (hk : ∀ u, (Piece.lexeme k u).isOpen = false) : ∀ p ∈ h.pieces k, p.isOpen = false := by
  rw [Header.pieces, List.cons_append, List.forall_mem_cons, List.forall_mem_append]
  refine ⟨hk _, ?_, List.forall_mem_singleton.mpr rfl⟩
  exact fun p hp => (Header.inHeader_middle hh p hp).isOpen

theorem crossName_isOpen (t : Text) : ∀ p ∈ crossName t, p.isOpen = false := by
  unfold crossName
  split
  · exact List.forall_mem_singleton.mpr rfl
  · exact List.forall_mem_nil _

variable (hb : isBlank b = true) (c : Context) (t : Text)
include hb

/-- A comment to the end of the row ends where it did. -/
theorem restAsComment_prolongs (s : State) :
    Cut.Prolongs b t ⟨restAsComment t, s⟩ ⟨restAsComment (t ++ [b]), s⟩ := by
  have hlength : (trimEnd t).length ≤ t.length :=
    List.IsPrefix.length_le ⟨_, (trimEnd_append_drop t).1⟩
  have hrest : restAsComment (t ++ [b])
      = [.lexeme .comment (trimEnd t)] ++ Piece.gaps (t.drop (trimEnd t).length ++ [b]) := by
    rw [restAsComment, trimEnd_append hb, List.drop_append_of_le_length hlength]
    rfl
  rw [hrest]
  exact .whole s (.gap (List.forall_mem_singleton.mpr rfl) _) (texts_restAsComment t)

/-- A comment that does not close ends before the blanks, one that does where it did. -/
theorem openComment_prolongs :
    Option.Rel (Cut.Prolongs b t) (openComment c t) (openComment c (t ++ [b])) := by
  unfold openComment
  rw [Shape.throughClose_append hb]
  split
  · split
    · exact .some (.same (List.forall_mem_singleton.mpr rfl))
    · exact .some (restAsComment_prolongs hb t _)
  · exact .none

theorem lineComment_prolongs :
    Option.Rel (Cut.Prolongs b t) (lineComment c t) (lineComment c (t ++ [b])) := by
  unfold lineComment
  split
  · exact .some (restAsComment_prolongs hb _ _)
  · rename_i hnot
    split
    · rename_i h
      obtain ⟨w, rfl, -⟩ := eq_append_of_append_blank hb (u := ['/', '/']) (by decide) h
      exact absurd rfl (hnot w)
    · exact .none

theorem blockComment_prolongs :
    Option.Rel (Cut.Prolongs b t) (blockComment c t) (blockComment c (t ++ [b])) := by
  unfold blockComment
  split
  · rename_i rest
    simp only [List.cons_append, Shape.throughClose_append hb]
    split
    · exact .some (.same (List.forall_mem_singleton.mpr rfl))
    · exact .some (restAsComment_prolongs hb _ _)
  · rename_i hnot
    split
    · rename_i h
      obtain ⟨w, rfl, -⟩ := eq_append_of_append_blank hb (u := ['/', '*']) (by decide) h
      exact absurd rfl (hnot w)
    · exact .none

/-- A string that does not close takes the blank in. -/
theorem stringLiteral_prolongs :
    Option.Rel (Cut.Prolongs b t) (stringLiteral c t) (stringLiteral c (t ++ [b])) := by
  unfold stringLiteral
  split
  · rename_i rest
    simp only [List.cons_append]
    -- only a string that is still open at the end of the row reaches the blank
    cases hcloses : Shape.closes rest with
    | true =>
        obtain ⟨hstring, hclosed⟩ := Shape.stringTail_of_closes hcloses [b]
        rw [hstring]
        refine .some (.same (List.forall_mem_singleton.mpr ?_))
        show (!Shape.closes (Shape.stringTail rest)) = false
        rw [hclosed]
        rfl
    | false =>
        rw [Shape.stringTail_of_not_closes hcloses,
          Shape.stringTail_of_not_closes (Shape.closes_append hb hcloses)]
        refine .some (.whole c.state (.string (List.forall_mem_nil _) ?_) ?_)
        · show (!Shape.closes rest) = true
          rw [hcloses]
          rfl
        · simp [Piece.text]
  · rename_i hnot
    split
    · rename_i h
      obtain ⟨w, rfl, -⟩ := eq_append_of_append_blank hb (u := ['"']) (by decide) h
      exact absurd rfl (hnot w)
    · exact .none

theorem numberLiteral_prolongs :
    Option.Rel (Cut.Prolongs b t) (numberLiteral c t) (numberLiteral c (t ++ [b])) := by
  unfold numberLiteral
  rw [any_head?_append (isDigit_failsOnBlanks b hb), Shape.number_append hb]
  split
  · exact .some (.same (List.forall_mem_singleton.mpr rfl))
  · exact .none

/-- A header is read alike, so its cut is the same. -/
theorem threadHeader_prolongs :
    Option.Rel (Cut.Prolongs b t) (threadHeader c t) (threadHeader c (t ++ [b])) := by
  unfold threadHeader
  rw [Shape.startsIdentifier_append hb, Header.ofText?_append hb]
  split
  · split
    · exact .none
    · rename_i h hh
      split
      · exact .none
      · split
        · exact .some (.same (header_isOpen hh fun _ => rfl))
        · exact .some (.same (header_isOpen hh fun _ => rfl))
  · exact .none

/-- A label is told by the colon behind its blanks. -/
theorem labelDefinition_prolongs :
    Option.Rel (Cut.Prolongs b t) (labelDefinition c t) (labelDefinition c (t ++ [b])) := by
  unfold labelDefinition
  simp only [Shape.startsIdentifier_append hb, Shape.word_append hb, ← List.drop_drop,
    Shape.drop_word_append, Shape.isClosingColon_afterBlanks hb]
  split
  · split
    · rename_i h
      rw [Shape.blanks_append (Bool.and_eq_true_iff.mp h).1]
      refine .some (.same (List.forall_mem_cons.mpr ⟨rfl, List.forall_mem_append.mpr ⟨?_, ?_⟩⟩))
      · exact Piece.isOpen_gaps _
      · exact List.forall_mem_singleton.mpr rfl
    · exact .none
  · exact .none

/-- A reserved word ends before the blank, which makes no path of it. -/
theorem reservedWord_prolongs :
    Option.Rel (Cut.Prolongs b t) (reservedWord c t) (reservedWord c (t ++ [b])) := by
  unfold reservedWord
  split
  · simp only [List.cons_append, Shape.word_append hb]
    split
    · exact .some (.same (List.forall_mem_singleton.mpr rfl))
    · exact .none
  · rename_i hnot
    split
    · rename_i h
      obtain ⟨w, rfl, -⟩ := eq_append_of_append_blank hb (u := ['#']) (by decide) h
      exact absurd rfl (hnot w)
    · simp only [Shape.word_append hb, Shape.startsIdentifier_append hb, Shape.path?_append hb]
      split
      · split
        · exact .some (.same (List.forall_mem_singleton.mpr rfl))
        · exact .some (.same (List.forall_mem_singleton.mpr rfl))
      · exact .none

/-- The dot behind a scope is not the blank. -/
theorem scopeWord_prolongs :
    Option.Rel (Cut.Prolongs b t) (scopeWord c t) (scopeWord c (t ++ [b])) := by
  unfold scopeWord
  simp only [Shape.word_append hb, Shape.startsIdentifier_append hb, Shape.drop_word_append]
  split
  · rename_i hscope hdot
    rw [hscope, hdot]
    simp only [List.cons_append, Shape.startsIdentifier_append hb]
    split
    · exact .some (.same (List.forall_mem_singleton.mpr rfl))
    · exact .none
  · rename_i hnot
    split
    · rename_i hscope h
      obtain ⟨w, hw, -⟩ := eq_append_of_append_blank hb (u := ['.']) (by decide) h
      exact absurd hw (hnot _ w hscope)
    · exact .none

/-- The kind of a name behind a dot tells an assignment, which no blank makes. -/
theorem dottedKind_append (previous : Option Piece) (afterName : Text) :
    dottedKind previous (afterName ++ [b]) = dottedKind previous afterName := by
  unfold dottedKind
  rw [Shape.assignsAfter_append hb]

/-- A name behind a dot ends before the blank. -/
theorem dottedName_prolongs :
    Option.Rel (Cut.Prolongs b t) (dottedName c t) (dottedName c (t ++ [b])) := by
  unfold dottedName
  split
  · simp only [List.cons_append, Shape.startsIdentifier_append hb, Shape.word_append hb,
      Shape.drop_word_append, dottedKind_append hb]
    split
    · refine Cut.Prolongs.rel_self ?_
      intro cut hcut
      obtain ⟨k, hk, rfl⟩ := Option.map_eq_some_iff.mp hcut
      have hdotted := isDotted_of_dottedKind hk
      refine List.forall_mem_cons.mpr ⟨rfl, List.forall_mem_singleton.mpr ?_⟩
      cases hdotted <;> rfl
    · exact .none
  · rename_i hnot
    split
    · rename_i h
      obtain ⟨w, rfl, -⟩ := eq_append_of_append_blank hb (u := ['.']) (by decide) h
      exact absurd rfl (hnot w)
    · exact .none

theorem crossName_append : crossName (t ++ [b]) = crossName t := by
  unfold crossName
  rw [Shape.startsIdentifier_append hb, Shape.word_append hb]

/-- A path ends before the blank, with the thread behind it. -/
theorem pathReference_prolongs :
    Option.Rel (Cut.Prolongs b t) (pathReference c t) (pathReference c (t ++ [b])) := by
  unfold pathReference
  rw [Shape.path?_append hb]
  split
  · exact .none
  · rename_i path hpath
    rw [List.drop_append_of_le_length (Shape.path?_prefix hpath).1.length_le]
    split
    · rename_i rest hrest
      rw [hrest]
      simp only [List.cons_append, crossName_append hb]
      exact .some (.same (List.forall_mem_cons.mpr ⟨rfl, List.forall_mem_cons.mpr
        ⟨rfl, crossName_isOpen _⟩⟩))
    · rename_i hnot
      split
      · rename_i h
        obtain ⟨w, hw, -⟩ := eq_append_of_append_blank hb (u := [':', ':']) (by decide) h
        exact absurd hw (hnot w)
      · exact .some (.same (List.forall_mem_singleton.mpr rfl))

theorem plainWord_prolongs :
    Option.Rel (Cut.Prolongs b t) (plainWord c t) (plainWord c (t ++ [b])) := by
  unfold plainWord
  rw [Shape.startsIdentifier_append hb, Shape.word_append hb]
  split
  · exact .some (.same (List.forall_mem_singleton.mpr rfl))
  · exact .none

/-- An operator ends before the blank. -/
theorem operatorSign_prolongs (a : Char) (rest : Text) :
    Option.Rel (Cut.Prolongs b (a :: rest)) (operatorSign c (a :: rest))
      (operatorSign c (a :: rest ++ [b])) := by
  unfold operatorSign
  rw [Shape.operator?_append hb]
  cases Shape.operator? (a :: rest) with
  | none => exact .none
  | some op => exact .some (.same (List.forall_mem_singleton.mpr rfl))

/-- **STEP**: a cut of the row with a blank at its end is the same or prolonged. -/
theorem cut_prolongs (a : Char) (rest : Text) :
    Cut.Prolongs b (a :: rest) (c.cut (a :: rest)) (c.cut (a :: rest ++ [b])) := by
  refine cut_rel ?_ (.same (List.forall_mem_singleton.mpr rfl))
  simp only [matchers, List.forall_mem_cons]
  exact ⟨openComment_prolongs hb c _, lineComment_prolongs hb c _, blockComment_prolongs hb c _,
    stringLiteral_prolongs hb c _, numberLiteral_prolongs hb c _, threadHeader_prolongs hb c _,
    labelDefinition_prolongs hb c _, reservedWord_prolongs hb c _, scopeWord_prolongs hb c _,
    dottedName_prolongs hb c _, pathReference_prolongs hb c _, plainWord_prolongs hb c _,
    operatorSign_prolongs hb c a rest, List.forall_mem_nil _⟩

/-- Reading on with a blank at the end of the row: the state is the same, and the blank goes into
    the last pieces. -/
theorem cutFrom_prolongs (hdone : ∀ p ∈ c.done, p.isOpen = false) {covered : Nat}
    (hcovered : covered ≤ t.length) :
    (cutFrom c covered (t ++ [b])).state = (cutFrom c covered t).state
      ∧ Piece.Prolongs b (cutFrom c covered t).done.reverse
        (cutFrom c covered (t ++ [b])).done.reverse := by
  fun_induction cutFrom c covered t with
  | case1 c covered =>
      obtain rfl : covered = 0 := Nat.le_zero.mp hcovered
      rw [List.nil_append, cutFrom, if_pos hb, cutFrom]
      refine ⟨rfl, ?_⟩
      have hreverse : ∀ p ∈ c.done.reverse, p.isOpen = false :=
        fun p hp => hdone p (List.mem_reverse.mp hp)
      have hgap := Piece.Prolongs.gap (b := b) hreverse []
      simpa [Context.advance, Context.keep, Piece.gaps] using hgap
  | case2 c covered a rest ih => exact ih hdone (Nat.le_of_succ_le_succ hcovered)
  | case3 c a rest ha ih =>
      rw [List.cons_append, cutFrom, if_pos ha]
      exact ih (List.forall_mem_cons.mpr ⟨rfl, hdone⟩) (Nat.zero_le _)
  | case4 c a rest ha next ih =>
      rw [List.cons_append, cutFrom, if_neg ha]
      have hbegins : next.Begins (a :: rest) := cut_begins c (Bool.eq_false_iff.mpr ha)
      have hcut : next.Prolongs b (a :: rest) (c.cut (a :: (rest ++ [b]))) :=
        cut_prolongs hb c a rest
      clear_value next
      generalize c.cut (a :: (rest ++ [b])) = next' at hcut
      cases hcut with
      | same hclosed =>
          refine ih (List.forall_mem_append.mpr ⟨?_, hdone⟩) ?_
          · exact fun p hp => hclosed p (List.mem_reverse.mp hp)
          · have hlength := hbegins.start.length_le
            rw [← Piece.width_eq, List.length_cons] at hlength
            omega
      | @whole ps ps' s h ht =>
          -- nothing is left to read on either side
          have hwidth : Piece.width ps - 1 = rest.length := by
            rw [Piece.width_eq, ht]
            rfl
          have hwidth' : Piece.width ps' - 1 = (rest ++ [b]).length := by
            rw [Piece.width_eq, h.texts, ht]
            rfl
          dsimp only
          rw [hwidth, hwidth', cutFrom_of_length_le _ (Nat.le_refl _),
            cutFrom_of_length_le _ (Nat.le_refl _)]
          refine ⟨rfl, ?_⟩
          simp only [Context.advance, List.reverse_append, List.reverse_reverse]
          exact h.append fun p hp => hdone p (List.mem_reverse.mp hp)

/-- **ROW**: so is the whole row, and it leaves the same state. -/
theorem cutRow_prolongs (s : State) (row : Text) :
    (cutRow s (row ++ [b])).state = (cutRow s row).state
      ∧ Piece.Prolongs b (cutRow s row).pieces (cutRow s (row ++ [b])).pieces :=
  cutFrom_prolongs hb ⟨s, []⟩ row (List.forall_mem_nil _) (Nat.zero_le _)

end Scan

/-! ## Rows -/

/-- Whether the lexeme is a string without its closing quote. -/
def Lexeme.isOpen (l : Lexeme) : Bool := l.kind == .string && !Shape.closes l.text.tail

/-- The lexeme with a blank at its end, if it is a string that nothing closes. -/
def Lexeme.prolonged (b : Char) (l : Lexeme) : Lexeme :=
  if l.isOpen then { l with text := l.text ++ [b] } else l

namespace Piece

/-- The piece with a blank at its end, if it is a string that nothing closes. -/
def prolonged (b : Char) (p : Piece) : Piece :=
  if p.isOpen then lexeme .string (p.text ++ [b]) else p

/-- Only what is open is prolonged. -/
theorem prolonged_of_not_isOpen {p : Piece} (h : p.isOpen = false) : p.prolonged b = p := by
  rw [prolonged, h]
  rfl

/-- A prolonged piece acts on the state of a row as it did. -/
theorem prolonged_actsAs (p : Piece) : (p.prolonged b).ActsAs p := by
  cases hopen : p.isOpen with
  | false =>
      rw [prolonged_of_not_isOpen hopen]
      exact ActsAs.refl p
  | true =>
      rw [prolonged, hopen, if_pos rfl]
      cases p with
      | gap u => exact Bool.noConfusion hopen
      | lexeme k u =>
          obtain rfl : k = .string := by
            rw [isOpen, Bool.and_eq_true, beq_iff_eq] at hopen
            exact hopen.1
          exact ⟨rfl, fun _ _ => rfl, fun _ => rfl, fun _ _ => rfl⟩

theorem filter_gaps (u : Text) : (gaps u).filter isSignificant = [] := by
  refine List.filter_eq_nil_iff.mpr fun p hp => ?_
  rw [mem_gaps hp]
  exact Bool.noConfusion

/-- Lexemes are open where their pieces are. -/
theorem isOpen_layOut {ps : List Piece} (hps : ∀ p ∈ ps, p.isOpen = false) {line column : Nat} :
    ∀ l ∈ layOut line column ps, l.isOpen = false := by
  intro l hl
  obtain ⟨before, k, u, after, rfl, rfl⟩ := mem_layOut.mp hl
  exact hps (lexeme k u) (by simp)

/-- The end of the row does not tell the pieces apart. -/
theorem Prolongs.significant {ps ps' : List Piece} (h : Prolongs b ps ps') :
    ps'.filter isSignificant = (ps.filter isSignificant).map (prolonged b) := by
  have hmap {qs : List Piece} (hqs : ∀ p ∈ qs, p.isOpen = false) :
      (qs.filter isSignificant).map (prolonged b) = qs.filter isSignificant := by
    have hself : ∀ p ∈ qs.filter isSignificant, p.prolonged b = p :=
      fun p hp => prolonged_of_not_isOpen (hqs p (List.mem_of_mem_filter hp))
    rw [List.map_congr_left hself, List.map_id']
  cases h with
  | gap hps u =>
      rw [List.filter_append, List.filter_append, filter_gaps, filter_gaps, List.append_nil,
        hmap hps]
  | @string ps hps u hu =>
      have hlast : (lexeme .string u).prolonged b = lexeme .string (u ++ [b]) := if_pos hu
      rw [List.filter_append, List.filter_append, List.map_append, hmap hps]
      exact congrArg (fun p => _ ++ [p]) hlast.symm

/-- Lexemes stay in their places; the last one may be longer. -/
theorem Prolongs.layOut_eq {ps ps' : List Piece} (h : Prolongs b ps ps') (line column : Nat) :
    layOut line column ps' = (layOut line column ps).map (Lexeme.prolonged b) := by
  have hmap {qs : List Piece} (hqs : ∀ p ∈ qs, p.isOpen = false) :
      (layOut line column qs).map (Lexeme.prolonged b) = layOut line column qs := by
    have hself : ∀ l ∈ layOut line column qs, l.prolonged b = l := by
      intro l hl
      rw [Lexeme.prolonged, isOpen_layOut hqs l hl]
      rfl
    rw [List.map_congr_left hself, List.map_id']
  cases h with
  | gap hps u =>
      rw [layOut_append, layOut_append, layOut_gaps, layOut_gaps, List.append_nil, hmap hps]
  | @string ps hps u hu =>
      have hlast : (⟨line, column + width ps, .string, u⟩ : Lexeme).prolonged b
          = ⟨line, column + width ps, .string, u ++ [b]⟩ := if_pos hu
      rw [layOut_append, layOut_append, List.map_append, hmap hps]
      exact congrArg (fun l => _ ++ [l]) hlast.symm

/-- A string that nothing closes reaches to the end of its row. -/
theorem Prolongs.endColumn_eq {ps ps' : List Piece} (h : Prolongs b ps ps') {line : Nat}
    {l : Lexeme} (hl : l ∈ layOut line 0 ps) (hopen : l.isOpen = true) :
    l.endColumn = width ps := by
  cases h with
  | gap hps u =>
      rw [layOut_append, layOut_gaps, List.append_nil] at hl
      exact Bool.noConfusion (hopen.symm.trans (isOpen_layOut hps l hl))
  | @string ps hps u hu =>
      rw [layOut_append, List.mem_append] at hl
      rcases hl with hl | hl
      · exact Bool.noConfusion (hopen.symm.trans (isOpen_layOut hps l hl))
      · obtain rfl := List.mem_singleton.mp hl
        rw [width_eq (ps ++ _), texts_append, List.length_append, ← width_eq]
        simp [Lexeme.endColumn, Lexeme.length, text]

end Piece

/-! ## Texts -/

/-- The text with a carriage return before each line feed. -/
def Text.withReturns (t : Text) : Text :=
  t.flatMap fun c => if c == '\n' then ['\r', '\n'] else [c]

/-- The rows with a carriage return at the end of each but the last. -/
def Text.returnedRows : List Text → List Text
  | [] => []
  | [row] => [row]
  | row :: next :: rs => (row ++ ['\r']) :: returnedRows (next :: rs)

theorem returnedRows_cons (row : Text) {rs : List Text} (h : rs ≠ []) :
    returnedRows (row :: rs) = (row ++ ['\r']) :: returnedRows rs := by
  cases rs with
  | nil => exact absurd rfl h
  | cons next rs => rfl

/-- Returns before the line ends stand at the ends of all rows but the last. -/
theorem rows_withReturns (t : Text) : rows t.withReturns = returnedRows (rows t) := by
  induction t with
  | nil => rfl
  | cons c t ih =>
      by_cases hc : c = '\n'
      · subst hc
        have hreturn : withReturns ('\n' :: t) = '\r' :: '\n' :: withReturns t := rfl
        have hrows : rows t ≠ [] := List.splitOn_ne_nil '\n' t
        rw [hreturn, rows_cons (by decide), rows_newline, rows_newline, ih,
          returnedRows_cons [] hrows]
        rfl
      · have hkeep : withReturns (c :: t) = c :: withReturns t := by
          rw [withReturns, List.flatMap_cons, if_neg (by simpa using hc)]
          rfl
        rw [hkeep, rows_cons hc, rows_cons hc, ih]
        rcases rows t with _ | ⟨row, _ | ⟨next, rs⟩⟩
        · rfl
        · rfl
        · rfl

namespace Scan

/-- The state that a row leaves does not depend on a blank at its end. -/
theorem afterRow_append (hb : isBlank b = true) (s : State) (row : Text) :
    (cutRow s (row ++ [b])).state.afterRow (cutRow s (row ++ [b])).pieces
      = (cutRow s row).state.afterRow (cutRow s row).pieces := by
  obtain ⟨hstate, hpieces⟩ := cutRow_prolongs hb s row
  rw [hstate]
  exact State.afterRow_map Piece.prolonged_actsAs _ hpieces.significant

/-- **ROWS**: returns prolong open lexemes in all rows but the last, and change nothing else. -/
theorem ofRows_returnedRows (s : State) (line : Nat) (rs : List Text) :
    Scan.ofRows s line (returnedRows rs) =
      ⟨(Scan.ofRows s line rs).lexemes.map fun l =>
          if l.line + 1 < line + rs.length then l.prolonged '\r' else l,
        (Scan.ofRows s line rs).lines⟩ := by
  fun_induction returnedRows rs generalizing s line with
  | case1 => rfl
  | case2 row =>
      have hself : ∀ l ∈ (Scan.ofRows s line [row]).lexemes,
          (if l.line + 1 < line + [row].length then l.prolonged '\r' else l) = l := by
        intro l hl
        rw [Scan.ofRows, Scan.ofRows, List.append_nil] at hl
        rw [Piece.line_of_mem_layOut hl]
        exact if_neg (Nat.lt_irrefl _)
      rw [List.map_congr_left hself, List.map_id']
  | case3 row next rs ih =>
      have hrow := (cutRow_prolongs (b := '\r') (by decide) s row).2.layOut_eq line 0
      have hlast : ∀ l ∈ Piece.layOut line 0 (cutRow s row).pieces,
          (if l.line + 1 < line + (row :: next :: rs).length then l.prolonged '\r' else l)
            = l.prolonged '\r' := by
        intro l hl
        rw [Piece.line_of_mem_layOut hl, List.length_cons, List.length_cons]
        exact if_pos (by omega)
      rw [Scan.ofRows, Scan.ofRows.eq_2 s line row, afterRow_append (by decide), ih, hrow,
        List.map_append, List.map_congr_left hlast, List.length_cons (a := row), ← Nat.add_assoc,
        Nat.add_right_comm]

end Scan

/-- Whether the lexeme is a string that the end of a row ends instead of a closing quote, and
    another row follows. -/
def Lexeme.isCutShort (rs : List Text) (l : Lexeme) : Bool :=
  l.kind == .string && !Shape.closes l.text.tail
    && rs[l.line]?.any (·.length == l.endColumn) && l.line + 1 < rs.length

/-- A string that nothing closes reaches to the end of its row. -/
theorem endColumn_of_isOpen {t : Text} {l : Lexeme} (hl : l ∈ (scan t).lexemes)
    (hopen : l.isOpen = true) : (rows t)[l.line]?.any (·.length == l.endColumn) = true := by
  obtain ⟨i, row, hrow, hl⟩ := Scan.mem_lexemes_ofRows.mp hl
  have hend := (Scan.cutRow_prolongs (b := ' ') (by decide) _ row).2.endColumn_eq hl hopen
  rw [Piece.width_eq, (Scan.cutRow_tiles _ row).1] at hend
  rw [Piece.line_of_mem_layOut hl, Nat.zero_add, hrow, hend]
  exact beq_self_eq_true _

/-- **Carriage returns leave no trace but in open strings.**  The lines are the same, and so are the
    lexemes, but that a string which a line feed ends, and no quote, has the carriage return as its
    last character. -/
theorem scan_withReturns (t : Text) :
    scan t.withReturns =
      ⟨(scan t).lexemes.map fun l =>
          if l.isCutShort (rows t) then { l with text := l.text ++ ['\r'] } else l,
        (scan t).lines⟩ := by
  have hshort : ∀ l ∈ (scan t).lexemes,
      (if l.line + 1 < 0 + (rows t).length then l.prolonged '\r' else l)
        = if l.isCutShort (rows t) then { l with text := l.text ++ ['\r'] } else l := by
    intro l hl
    have hcut : l.isCutShort (rows t) = (l.isOpen
        && (rows t)[l.line]?.any (·.length == l.endColumn) && l.line + 1 < (rows t).length) := rfl
    rw [Nat.zero_add, hcut, Lexeme.prolonged]
    cases hopen : l.isOpen with
    | false => simp
    | true => simp [endColumn_of_isOpen hl hopen]
  rw [scan, rows_withReturns, Scan.ofRows_returnedRows, ← scan, List.map_congr_left hshort]

/-- The first string runs out at the end of its row, the second ends in its quote. -/
example : (scan (Text.withReturns "a = \"b\nc = \"d\"\ne".toList)).lexemes.map (·.text)
    = ["a", "=", "\"b\r", "c", "=", "\"d\"", "e"].map String.toList := by
  decide +kernel

end ScriptAtlas
