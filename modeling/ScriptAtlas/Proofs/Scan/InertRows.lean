import ScriptAtlas.Proofs.Scan.ThreadExtent
import Mathlib.Data.List.InsertIdx

/-! # Inert rows — blank rows and comments move the rest down and nothing else

    A row of blanks, or a line comment where no block comment is open, is read
    without a change of state, and its end forgets nothing but a backslash of
    the row before (`afterRow_of_insignificant`).  Before a row that does not
    continue the one before it, such a row therefore leaves the state as it
    finds it: the rows after it are read as before, one line further down
    (`scan_insertRow`). -/

namespace ScriptAtlas

open Text

/-! ## Rows put in -/

theorem insertIdx_append {α : Type} {l₁ : List α} {k : Nat} (hk : l₁.length = k) (l₂ : List α)
    (a : α) : (l₁ ++ l₂).insertIdx k a = l₁ ++ a :: l₂ := by
  subst hk
  induction l₁ with
  | nil => rfl
  | cons b l₁ ih => exact congrArg (b :: ·) ih

/-- What is put in stands between what was before and behind its place. -/
theorem insertIdx_eq {α : Type} {l : List α} {k : Nat} (hk : k ≤ l.length) (a : α) :
    l.insertIdx k a = l.take k ++ a :: l.drop k := by
  have hinsert := insertIdx_append (List.length_take_of_le hk) (l.drop k) a
  rwa [List.take_append_drop] at hinsert

theorem newline_notMem_rows (t : Text) : ∀ row ∈ rows t, '\n' ∉ row :=
  fun _ => notMem_of_mem_splitOn

/-- The text with a row put in before row `k`. -/
def Text.insertRow (t : Text) (k : Nat) (row : Text) : Text :=
  ['\n'].intercalate ((rows t).insertIdx k row)

/-- A row put in a text is a row put among its rows. -/
theorem rows_insertRow {k : Nat} {row : Text} (hrow : '\n' ∉ row) (t : Text) :
    rows (t.insertRow k row) = (rows t).insertIdx k row := by
  refine List.splitOn_intercalate '\n' ?_ ?_
  · intro r hr
    rcases List.eq_or_mem_of_mem_insertIdx hr with rfl | hr
    · exact hrow
    · exact newline_notMem_rows t r hr
  · intro hnil
    have hlength := List.length_le_length_insertIdx (l := rows t) (x := row) (i := k)
    rw [hnil, List.length_nil, Nat.le_zero, List.length_eq_zero_iff] at hlength
    exact List.splitOn_ne_nil '\n' t hlength

/-! ## Rows further down -/

/-- The lexeme one line further down. -/
def Lexeme.down (l : Lexeme) : Lexeme := { l with line := l.line + 1 }

/-- One line further down, lexemes are moved down. -/
theorem Piece.layOut_succ (line column : Nat) (ps : List Piece) :
    layOut (line + 1) column ps = (layOut line column ps).map Lexeme.down := by
  induction ps generalizing column with
  | nil => rfl
  | cons p ps ih =>
      cases p with
      | gap u => exact ih _
      | lexeme k u => exact congrArg (_ :: ·) (ih _)

namespace Scan

/-- Rows further down have the same lines, and their lexemes further down. -/
theorem ofRows_succ (s : State) (line : Nat) (rs : List Text) :
    Scan.ofRows s (line + 1) rs
      = ⟨(Scan.ofRows s line rs).lexemes.map Lexeme.down, (Scan.ofRows s line rs).lines⟩ := by
  induction rs generalizing s line with
  | nil => rfl
  | cons row rs ih =>
      rw [Scan.ofRows, ih, Piece.layOut_succ, ← List.map_append]
      rfl

/-! ## Rows without statements -/

/-- Blanks at the start of a row are cut one by one and change no state. -/
theorem cutFrom_blanks (c : Context) {u : Text} (hu : ∀ a ∈ u, isBlank a = true) (rest : Text) :
    cutFrom c 0 (u ++ rest)
      = cutFrom ⟨c.state, (u.map fun a => Piece.gap [a]).reverse ++ c.done⟩ 0 rest := by
  induction u generalizing c with
  | nil => rfl
  | cons a u ih =>
      obtain ⟨ha, hu⟩ := List.forall_mem_cons.mp hu
      rw [List.cons_append, cutFrom, if_pos ha, ih _ hu]
      simp [Context.advance, Context.keep]

/-- So a row of blanks is cut into gaps. -/
theorem cutRow_blank (s : State) {row : Text} (hrow : ∀ a ∈ row, isBlank a = true) :
    cutRow s row = ⟨row.map fun a => .gap [a], s⟩ := by
  have hcut := cutFrom_blanks ⟨s, []⟩ hrow []
  rw [List.append_nil, List.append_nil, cutFrom] at hcut
  rw [cutRow, hcut, List.reverse_reverse]

/-- Outside of comments, two slashes take the rest of the row. -/
theorem cut_lineComment {c : Context} (hout : c.state.inComment = false) (rest : Text) :
    c.cut ('/' :: '/' :: rest) = c.keep (restAsComment ('/' :: '/' :: rest)) := by
  simp [Context.cut, matchers, openComment, hout, lineComment]

/-- So a comment row is cut into gaps and a comment. -/
theorem cutRow_comment {s : State} (hout : s.inComment = false) {u : Text}
    (hu : ∀ a ∈ u, isBlank a = true) (rest : Text) :
    cutRow s (u ++ '/' :: '/' :: rest)
      = ⟨(u.map fun a => .gap [a]) ++ restAsComment ('/' :: '/' :: rest), s⟩ := by
  have hwidth : ('/' :: rest).length ≤ Piece.width (restAsComment ('/' :: '/' :: rest)) - 1 := by
    rw [Piece.width_eq, texts_restAsComment]
    exact Nat.le_refl _
  rw [cutRow, cutFrom_blanks ⟨s, []⟩ hu, cutFrom, if_neg (by decide)]
  simp only [cut_lineComment (c := ⟨s, _⟩) hout, Context.keep]
  rw [cutFrom_of_length_le _ hwidth]
  simp [Context.advance]

/-- A row in which nothing counts leaves the state as it was, unless a statement goes on. -/
theorem afterRow_of_insignificant {s : State} (hs : s.continued = false) {ps : List Piece}
    (hps : ∀ p ∈ ps, p.isSignificant = false) : s.afterRow ps = s := by
  have hfilter : ps.filter Piece.isSignificant = [] := by
    refine List.filter_eq_nil_iff.mpr fun p hp => ?_
    simp [hps p hp]
  have hkeep : { s with continued := false } = s := by rw [← hs]
  unfold State.afterRow
  rw [hfilter]
  exact hkeep

end Scan

theorem Piece.width_blanks (u : Text) : width (u.map fun a => gap [a]) = u.length := by
  induction u with
  | nil => rfl
  | cons a u ih =>
      rw [List.map_cons, width, ih, List.length_cons, Nat.add_comm]
      rfl

/-- Gaps have no lexemes. -/
theorem Piece.layOut_blanks (line column : Nat) (u : Text) :
    layOut line column (u.map fun a => gap [a]) = [] := by
  induction u generalizing column with
  | nil => rfl
  | cons a u ih => exact ih _

/-- A row that holds no statement, with its lexemes as row `k`: a row of blanks has none, and a line
    comment, where no block comment is open, is one. -/
inductive InertRow (inComment : Bool) (k : Nat) : Text → List Lexeme → Prop
  | blank {row : Text} (hrow : ∀ a ∈ row, isBlank a = true) : InertRow inComment k row []
  | comment {u : Text} (hu : ∀ a ∈ u, isBlank a = true) (rest : Text) (hout : inComment = false) :
      InertRow inComment k (u ++ '/' :: '/' :: rest)
        [⟨k, u.length, .comment, trimEnd ('/' :: '/' :: rest)⟩]

/-- Such a row is read without a change of state, into its lexemes and pieces that do not count. -/
theorem InertRow.cutRow_spec {s : Scan.State} {k : Nat} {row : Text} {ls : List Lexeme}
    (h : InertRow s.inComment k row ls) :
    (Scan.cutRow s row).state = s
      ∧ (∀ p ∈ (Scan.cutRow s row).pieces, p.isSignificant = false)
      ∧ Piece.layOut k 0 (Scan.cutRow s row).pieces = ls := by
  have hgaps (u : Text) : ∀ p ∈ u.map fun a => Piece.gap [a], p.isSignificant = false := by
    simp [Piece.isSignificant]
  cases h with
  | blank hrow =>
      rw [Scan.cutRow_blank s hrow]
      exact ⟨rfl, hgaps _, Piece.layOut_blanks _ _ _⟩
  | @comment u hu rest hout =>
      rw [Scan.cutRow_comment hout hu]
      refine ⟨rfl, List.forall_mem_append.mpr ⟨hgaps u, Scan.isSignificant_restAsComment _⟩, ?_⟩
      rw [Piece.layOut_append, Piece.layOut_blanks, Piece.width_blanks, Scan.restAsComment,
        Piece.layOut, Piece.layOut_gaps, Nat.zero_add]
      rfl

namespace Scan

/-- **INSERTION**: an inert row adds its lexemes and moves those behind it down. -/
theorem ofRows_insertRow {s : State} {rs : List Text} {k : Nat} (hk : k ≤ rs.length)
    (hcontinued : (s.afterRows (rs.take k)).continued = false) {row : Text} {ls : List Lexeme}
    (h : InertRow (s.afterRows (rs.take k)).inComment k row ls) :
    Scan.ofRows s 0 (rs.insertIdx k row) =
      ⟨(Scan.ofRows s 0 rs).lexemes.filter (·.line < k) ++ ls
          ++ ((Scan.ofRows s 0 rs).lexemes.filter (k ≤ ·.line)).map Lexeme.down,
        (Scan.ofRows s 0 rs).lines.insertIdx k (s.afterRows (rs.take k)).info⟩ := by
  obtain ⟨hstate, hinsignificant, hlexemes⟩ := h.cutRow_spec
  -- the row after the new one starts in the state that it started in before
  have hnew : Scan.ofRows (s.afterRows (rs.take k)) k (row :: rs.drop k)
      = ⟨ls ++ (Scan.ofRows (s.afterRows (rs.take k)) k (rs.drop k)).lexemes.map Lexeme.down,
        (s.afterRows (rs.take k)).info
          :: (Scan.ofRows (s.afterRows (rs.take k)) k (rs.drop k)).lines⟩ := by
    rw [Scan.ofRows, hstate, afterRow_of_insignificant hcontinued hinsignificant, hlexemes,
      ofRows_succ]
  have hlines := lines_ofRows_append s 0 (rs.take k) (rs.drop k)
  have htake : (Scan.ofRows s 0 (rs.take k)).lines.length = k := by
    rw [length_lines_ofRows, List.length_take_of_le hk]
  rw [List.take_append_drop, List.length_take_of_le hk, Nat.zero_add] at hlines
  rw [insertIdx_eq hk row]
  refine congrArg₂ Scan.mk ?_ ?_
  · rw [lexemes_ofRows_append, List.length_take_of_le hk, Nat.zero_add, hnew,
      lexemes_ofRows_take s rs hk, lexemes_ofRows_drop s rs hk, List.append_assoc]
  · rw [lines_ofRows_append, List.length_take_of_le hk, Nat.zero_add, hnew, hlines]
    exact (insertIdx_append htake _ _).symm

end Scan

/-- Whether row `k` starts inside a block comment. -/
def Text.startsInComment (t : Text) (k : Nat) : Bool :=
  (Scan.State.initial.afterRows ((rows t).take k)).inComment

/-- **Inert rows.**  Put in before a row that does not continue another, a blank row or a comment
    leaves the lexemes above as they are, moves the others down by one line, and takes over what the
    row inherits. -/
theorem scan_insertRow {t : Text} {k : Nat} {info : LineInfo}
    (hinfo : (scan t).lines[k]? = some info) (hcontinued : info.continued = false) {row : Text}
    {ls : List Lexeme} (hrow : InertRow (t.startsInComment k) k row ls) (hnewline : '\n' ∉ row) :
    scan (t.insertRow k row) =
      ⟨(scan t).lexemes.filter (·.line < k) ++ ls
          ++ ((scan t).lexemes.filter (k ≤ ·.line)).map Lexeme.down,
        (scan t).lines.insertIdx k info⟩ := by
  have hline := Scan.getElem?_lines_ofRows .initial 0 (rows t) k
  rw [← scan, hinfo] at hline
  obtain ⟨r, hr, hinfo⟩ := Option.map_eq_some_iff.mp hline.symm
  have hk : k ≤ (rows t).length := Nat.le_of_lt (List.getElem?_eq_some_iff.mp hr).1
  subst hinfo
  rw [scan, rows_insertRow hnewline]
  exact Scan.ofRows_insertRow hk hcontinued hrow

/-- Between `if (a)` and its body without braces, a blank row and a comment. -/
theorem scan_insertRow_before_body :
    let t : Text := "main:\nif (a)\nb = 1\nend".toList
    let info : LineInfo := ⟨0, false, true⟩
    let comment : Lexeme := ⟨2, 1, .comment, "// once".toList⟩
    let above := (scan t).lexemes.filter (·.line < 2)
    let below := ((scan t).lexemes.filter (2 ≤ ·.line)).map Lexeme.down
    (scan t).lines[2]? = some info ∧ info.continued = false
      ∧ InertRow (t.startsInComment 2) 2 ['\t', ' '] []
      ∧ InertRow (t.startsInComment 2) 2 "\t// once ".toList [comment]
      ∧ scan (t.insertRow 2 ['\t', ' ']) = ⟨above ++ [] ++ below, (scan t).lines.insertIdx 2 info⟩
      ∧ scan (t.insertRow 2 "\t// once ".toList)
          = ⟨above ++ [comment] ++ below, (scan t).lines.insertIdx 2 info⟩ := by
  intro t info comment above below
  have hinfo : (scan t).lines[2]? = some info := by decide +kernel
  have hout : t.startsInComment 2 = false := by decide +kernel
  have hblank : InertRow (t.startsInComment 2) 2 ['\t', ' '] [] :=
    .blank (List.all_eq_true.mp (by decide))
  have hcomment : InertRow (t.startsInComment 2) 2 "\t// once ".toList [comment] :=
    .comment (u := ['\t']) (List.all_eq_true.mp (by decide)) " once ".toList hout
  exact ⟨hinfo, rfl, hblank, hcomment, scan_insertRow hinfo rfl hblank (by decide),
    scan_insertRow hinfo rfl hcomment (by decide +kernel)⟩

end ScriptAtlas
