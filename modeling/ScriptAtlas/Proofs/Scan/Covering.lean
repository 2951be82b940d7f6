import ScriptAtlas.Proofs.Scan.Pieces
import Mathlib.Logic.ExistsUnique

/-! # Covering — the lexemes of a text hold every character that is not blank

    The pieces of a row tile it, so the places that `layOut` gives them follow
    from their widths.  The route:

    * within a row, lexemes stand one after the other, each over its own
      characters, and leave out blanks only;
    * the lexemes of a text are those of its rows, each laid out from the state
      that the rows before it leave (`mem_lexemes_ofRows`);
    * hence the lexemes of a text cover its rows exactly (`scan_covers`). -/

namespace ScriptAtlas

open Text

/-- Whether a lexeme holds the character at a place. -/
def Lexeme.Holds (l : Lexeme) (line column : Nat) : Prop :=
  l.line = line ∧ l.column ≤ column ∧ column < l.endColumn

/-- Whether a lexeme starts on an earlier line, or on the same line further to the left. -/
def Lexeme.StartsBefore (a b : Lexeme) : Prop :=
  a.line < b.line ∨ (a.line = b.line ∧ a.column < b.column)

/-- Whether a lexeme stands on an earlier line, or on the same line wholly to the left. -/
def Lexeme.StandsBefore (a b : Lexeme) : Prop :=
  a.line < b.line ∨ (a.line = b.line ∧ a.endColumn ≤ b.column)

/-- An exact covering of rows by lexemes. -/
structure Covering (rows : List Text) (ls : List Lexeme) : Prop where
  /-- Lexemes go strictly by line and column. -/
  ordered : ls.Pairwise Lexeme.StartsBefore
  /-- No two lexemes hold the same character. -/
  disjoint : ls.Pairwise fun a b => ∀ line column, ¬ (a.Holds line column ∧ b.Holds line column)
  /-- A lexeme has characters, and they are those of its row at its place. -/
  placed : ∀ l ∈ ls, 1 ≤ l.length ∧ ∃ row, rows[l.line]? = some row
    ∧ l.endColumn ≤ row.length ∧ l.text = (row.drop l.column).take l.length
  /-- Every character that is not blank lies in exactly one lexeme. -/
  covered : ∀ line row column c, rows[line]? = some row → row[column]? = some c →
    isBlank c = false → ∃! l, l ∈ ls ∧ l.Holds line column

/-! ## One row -/

namespace Piece

/-- The lexemes of a row are its lexeme pieces, each at the width of what stands before it. -/
theorem mem_layOut {line column : Nat} {ps : List Piece} {l : Lexeme} :
    l ∈ layOut line column ps ↔ ∃ before k t after,
      ps = before ++ lexeme k t :: after ∧ l = ⟨line, column + width before, k, t⟩ := by
  induction ps generalizing column l with
  | nil => simp [layOut]
  | cons p ps ih =>
      constructor
      · intro hl
        cases p with
        | gap t =>
            obtain ⟨before, k, u, after, rfl, rfl⟩ := ih.mp hl
            exact ⟨gap t :: before, k, u, after, rfl, by simp [width, text, Nat.add_assoc]⟩
        | lexeme k t =>
            rcases List.mem_cons.mp hl with rfl | hl
            · exact ⟨[], k, t, ps, rfl, rfl⟩
            · obtain ⟨before, k', u, after, rfl, rfl⟩ := ih.mp hl
              exact ⟨lexeme k t :: before, k', u, after, rfl, by simp [width, text, Nat.add_assoc]⟩
      · rintro ⟨before, k, t, after, heq, rfl⟩
        cases before with
        | nil =>
            obtain ⟨rfl, rfl⟩ := List.cons.inj heq
            exact List.mem_cons_self
        | cons q before =>
            obtain ⟨rfl, rfl⟩ := List.cons.inj heq
            have hmem : (⟨line, column + p.text.length + width before, k, t⟩ : Lexeme)
                ∈ layOut line (column + p.text.length) (before ++ lexeme k t :: after) :=
              ih.mpr ⟨before, k, t, after, rfl, rfl⟩
            rw [width, ← Nat.add_assoc]
            cases p with
            | gap u => exact hmem
            | lexeme k' u => exact List.mem_cons_of_mem _ hmem

theorem line_of_mem_layOut {line column : Nat} {ps : List Piece} {l : Lexeme}
    (hl : l ∈ layOut line column ps) : l.line = line := by
  obtain ⟨before, k, u, after, -, rfl⟩ := mem_layOut.mp hl
  rfl

/-- The lexemes of a row stand one after the other. -/
theorem layOut_pairwise (line column : Nat) (ps : List Piece) :
    (layOut line column ps).Pairwise Lexeme.StandsBefore := by
  induction ps generalizing column with
  | nil => exact List.Pairwise.nil
  | cons p ps ih =>
      cases p with
      | gap t => exact ih (column + t.length)
      | lexeme k t =>
          refine List.pairwise_cons.mpr ⟨?_, ih (column + t.length)⟩
          intro l hl
          obtain ⟨before, k', u, after, -, rfl⟩ := mem_layOut.mp hl
          exact Or.inr ⟨rfl, Nat.le_add_right _ _⟩

/-- A lexeme of a row has characters, and they are those of the row at its place. -/
theorem layOut_placed {line : Nat} {ps : List Piece} (hsound : ∀ p ∈ ps, p.IsSound) {l : Lexeme}
    (hl : l ∈ layOut line 0 ps) :
    1 ≤ l.length ∧ l.endColumn ≤ (texts ps).length
      ∧ l.text = ((texts ps).drop l.column).take l.length := by
  obtain ⟨before, k, t, after, rfl, rfl⟩ := mem_layOut.mp hl
  have hne : t ≠ [] := hsound (lexeme k t) (List.mem_append_right _ List.mem_cons_self)
  refine ⟨List.length_pos_iff.mpr hne, ?_, ?_⟩
  · show 0 + width before + t.length ≤ _
    rw [width_eq, texts_append, texts_cons, List.length_append, List.length_append, text]
    omega
  · show t = ((texts (before ++ lexeme k t :: after)).drop (0 + width before)).take t.length
    rw [Nat.zero_add, width_eq, texts_append, List.drop_left, texts_cons]
    exact List.take_left.symm

/-- The piece that a character of a row lies in. -/
theorem exists_piece_at {ps : List Piece} {column : Nat} {c : Char}
    (h : (texts ps)[column]? = some c) : ∃ before p after, ps = before ++ p :: after
      ∧ width before ≤ column ∧ column < width before + p.text.length ∧ c ∈ p.text := by
  induction ps generalizing column with
  | nil => exact nomatch h
  | cons p ps ih =>
      rw [texts_cons] at h
      by_cases hcolumn : column < p.text.length
      · rw [List.getElem?_append_left hcolumn] at h
        exact ⟨[], p, ps, rfl, Nat.zero_le _, by rw [width]; omega, List.mem_of_getElem? h⟩
      · rw [List.getElem?_append_right (Nat.le_of_not_lt hcolumn)] at h
        obtain ⟨before, q, after, rfl, hfrom, hto, hc⟩ := ih h
        exact ⟨p :: before, q, after, rfl, by rw [width]; omega, by rw [width]; omega, hc⟩

/-- Every character of a row that is not blank lies in one of its lexemes. -/
theorem layOut_holds {line : Nat} {ps : List Piece} (hsound : ∀ p ∈ ps, p.IsSound) {column : Nat}
    {c : Char} (h : (texts ps)[column]? = some c) (hc : isBlank c = false) :
    ∃ l ∈ layOut line 0 ps, l.Holds line column := by
  obtain ⟨before, p, after, hps, hfrom, hto, hmem⟩ := exists_piece_at h
  have hp : p.IsSound := hsound p (by rw [hps]; exact List.mem_append_right _ List.mem_cons_self)
  cases p with
  | gap t =>
      -- a gap holds blanks only
      have := hp c hmem
      rw [hc] at this
      exact nomatch this
  | lexeme k t =>
      refine ⟨⟨line, 0 + width before, k, t⟩, mem_layOut.mpr ⟨before, k, t, after, hps, rfl⟩, rfl,
        ?_, ?_⟩
      · show 0 + width before ≤ column
        omega
      · show column < 0 + width before + t.length
        rw [Nat.zero_add]
        exact hto

end Piece

/-! ## The rows of a text -/

theorem rows_newline (t : Text) : rows ('\n' :: t) = [] :: rows t :=
  (List.splitOn_cons_eq_if_modifyHead '\n' t).trans (if_pos (beq_self_eq_true '\n'))

theorem rows_cons {c : Char} (hc : c ≠ '\n') (t : Text) :
    rows (c :: t) = (rows t).modifyHead (c :: ·) :=
  (List.splitOn_cons_eq_if_modifyHead c t).trans (if_neg (by simpa using hc))

/-- The state that rows leave for the row after them. -/
def Scan.State.afterRows (s : Scan.State) (rs : List Text) : Scan.State :=
  rs.foldl (fun s row => (Scan.cutRow s row).state.afterRow (Scan.cutRow s row).pieces) s

namespace Scan

/-- The lexemes of rows are those of each row, laid out from the state before it. -/
theorem mem_lexemes_ofRows {s : State} {line : Nat} {rs : List Text} {l : Lexeme} :
    l ∈ (Scan.ofRows s line rs).lexemes ↔ ∃ i row, rs[i]? = some row
      ∧ l ∈ Piece.layOut (line + i) 0 (cutRow (s.afterRows (rs.take i)) row).pieces := by
  induction rs generalizing s line with
  | nil => simp [Scan.ofRows]
  | cons row rs ih =>
      rw [Scan.ofRows, List.mem_append, ih]
      constructor
      · rintro (hl | ⟨i, row', hrow, hl⟩)
        · exact ⟨0, row, rfl, hl⟩
        · refine ⟨i + 1, row', hrow, ?_⟩
          rw [Nat.add_right_comm] at hl
          exact hl
      · rintro ⟨i, row', hrow, hl⟩
        cases i with
        | zero =>
            obtain rfl := Option.some.inj hrow
            exact Or.inl hl
        | succ i =>
            refine Or.inr ⟨i, row', hrow, ?_⟩
            rw [Nat.add_right_comm]
            exact hl

/-- The lexemes of rows stand one after the other. -/
theorem lexemes_ofRows_pairwise (s : State) (line : Nat) (rs : List Text) :
    (Scan.ofRows s line rs).lexemes.Pairwise Lexeme.StandsBefore := by
  induction rs generalizing s line with
  | nil => exact List.Pairwise.nil
  | cons row rs ih =>
      refine List.pairwise_append.mpr ⟨Piece.layOut_pairwise _ _ _, ih _ _, ?_⟩
      intro a ha b hb
      obtain ⟨before, k, t, after, -, rfl⟩ := Piece.mem_layOut.mp ha
      obtain ⟨i, row', -, hb⟩ := mem_lexemes_ofRows.mp hb
      obtain ⟨before', k', t', after', -, rfl⟩ := Piece.mem_layOut.mp hb
      refine Or.inl ?_
      show line < line + 1 + i
      omega

end Scan

/-- Lexemes that stand one after the other hold no character in common. -/
theorem Lexeme.StandsBefore.disjoint {a b : Lexeme} (h : a.StandsBefore b) (line column : Nat) :
    ¬ (a.Holds line column ∧ b.Holds line column) := by
  rintro ⟨⟨haline, -, hend⟩, ⟨hbline, hstart, -⟩⟩
  rcases h with h | ⟨-, h⟩
  · omega
  · omega

/-- Among lexemes that stand one after the other, at most one holds a given character. -/
theorem eq_of_holds {ls : List Lexeme} (h : ls.Pairwise Lexeme.StandsBefore) {a b : Lexeme}
    (ha : a ∈ ls) (hb : b ∈ ls) {line column : Nat} (hha : a.Holds line column)
    (hhb : b.Holds line column) : a = b := by
  induction h with
  | nil => exact nomatch ha
  | cons hfirst _ ih =>
      rcases List.mem_cons.mp ha with rfl | ha'
      · rcases List.mem_cons.mp hb with rfl | hb'
        · rfl
        · exact absurd ⟨hha, hhb⟩ ((hfirst b hb').disjoint line column)
      · rcases List.mem_cons.mp hb with rfl | hb'
        · exact absurd ⟨hhb, hha⟩ ((hfirst a ha').disjoint line column)
        · exact ih ha' hb'

/-- A lexeme of a text has characters, and they are those of its row at its place. -/
theorem scan_lexemes_placed {t : Text} {l : Lexeme} (hl : l ∈ (scan t).lexemes) :
    1 ≤ l.length ∧ ∃ row, (rows t)[l.line]? = some row
      ∧ l.endColumn ≤ row.length ∧ l.text = (row.drop l.column).take l.length := by
  obtain ⟨i, row, hrow, hl⟩ := Scan.mem_lexemes_ofRows.mp hl
  obtain ⟨htexts, hsound⟩ := Scan.cutRow_tiles (Scan.State.initial.afterRows ((rows t).take i)) row
  have hline : l.line = i := by
    obtain ⟨before, k, u, after, -, rfl⟩ := Piece.mem_layOut.mp hl
    exact Nat.zero_add i
  obtain ⟨hlength, hend, htext⟩ := Piece.layOut_placed hsound hl
  rw [htexts] at hend htext
  exact ⟨hlength, row, hline ▸ hrow, hend, htext⟩

/-- The lexemes of a text go strictly by line and column. -/
theorem scan_lexemes_ordered (t : Text) : (scan t).lexemes.Pairwise Lexeme.StartsBefore := by
  refine (Scan.lexemes_ofRows_pairwise .initial 0 (rows t)).imp_of_mem ?_
  intro a b ha _ hab
  -- a lexeme has characters, so standing before another is starting before it
  have hlength := (scan_lexemes_placed ha).1
  rcases hab with hline | ⟨hline, hcolumn⟩
  · exact Or.inl hline
  · refine Or.inr ⟨hline, ?_⟩
    rw [Lexeme.endColumn] at hcolumn
    omega

/-- **EXACT COVERING**: the lexemes of a text go strictly by line and column, do not overlap, carry
    the characters of their rows, and leave out blanks only. -/
theorem scan_covers (t : Text) : Covering (rows t) (scan t).lexemes := by
  have hpairwise := Scan.lexemes_ofRows_pairwise .initial 0 (rows t)
  refine ⟨scan_lexemes_ordered t, hpairwise.imp Lexeme.StandsBefore.disjoint,
    fun _ => scan_lexemes_placed, ?_⟩
  intro line row column c hrow hcolumn hc
  obtain ⟨htexts, hsound⟩ :=
    Scan.cutRow_tiles (Scan.State.initial.afterRows ((rows t).take line)) row
  rw [← htexts] at hcolumn
  obtain ⟨l, hl, hholds⟩ : ∃ l ∈ Piece.layOut (0 + line) 0 _, l.Holds (0 + line) column :=
    Piece.layOut_holds hsound hcolumn hc
  rw [Nat.zero_add] at hholds
  have hmem : l ∈ (scan t).lexemes := Scan.mem_lexemes_ofRows.mpr ⟨line, row, hrow, hl⟩
  refine ⟨l, ⟨hmem, hholds⟩, ?_⟩
  rintro l' ⟨hmem', hholds'⟩
  exact eq_of_holds hpairwise hmem' hmem hholds' hholds

end ScriptAtlas
