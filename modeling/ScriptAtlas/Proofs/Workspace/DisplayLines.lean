import ScriptAtlas.Command.Run
import ScriptAtlas.Proofs.Workspace.UnusedTokens

/-! # Display lines — how far they agree with rows

    Lexemes and tokens count rows, which end at line feeds; what is shown of a
    script is taken from its display lines, which end at other breaks as well.
    Both count alike up to the first break that ends no row.  The route:

    * a break that ends no row makes one display line more (`length_displayLines`);
    * on rows before the first such break, the display line is the row without
      its carriage return (`Intact.rel`);
    * so the two agree on all lines exactly when there is no such break
      (`displayLines_against_rows`), and up to it the text shown for a token is
      that of its lexeme (`tokenText_eq`). -/

namespace ScriptAtlas

open Text

namespace Text

/-! ## Breaks that end no row -/

/-- Whether a character, followed by a text, ends a display line within a row. -/
def isInnerBreak (c : Char) (after : Text) : Bool :=
  isLineBreak c && c != '\n' && !(c == '\r' && after.head? == some '\n')

/-- The number of breaks that end no row. -/
def innerBreaks : Text → Nat
  | [] => 0
  | c :: t => innerBreaks t + if isInnerBreak c t then 1 else 0

/-- Whether no display line ends within a row, up to row `k`. -/
def Intact (t : Text) (k : Nat) : Prop :=
  ∀ before c after, t = before ++ c :: after → before.count '\n' ≤ k → isInnerBreak c after = false

/-- A row without its carriage returns. -/
def withoutReturns (row : Text) : Text := row.filter (· != '\r')

section

variable {t : Text} {c : Char} {k : Nat}

theorem Intact.head (h : Intact (c :: t) k) : isInnerBreak c t = false :=
  h [] c t rfl (Nat.zero_le k)

theorem Intact.tail (h : Intact (c :: t) k) (hc : c ≠ '\n') : Intact t k := by
  rintro before d after rfl hcount
  refine h (c :: before) d after rfl ?_
  rw [List.count_cons_of_ne hc]
  exact hcount

theorem Intact.below (h : Intact ('\n' :: t) (k + 1)) : Intact t k := by
  rintro before d after rfl hcount
  refine h ('\n' :: before) d after rfl ?_
  rw [List.count_cons_self]
  exact Nat.succ_le_succ hcount

theorem intact_of_innerBreaks_eq_zero (h : innerBreaks t = 0) : Intact t k := by
  rintro before c after rfl -
  induction before with
  | nil =>
      by_contra hbreak
      rw [Bool.not_eq_false] at hbreak
      simp [innerBreaks, hbreak] at h
  | cons d before ih =>
      rw [List.cons_append, innerBreaks] at h
      exact ih (Nat.eq_zero_of_add_eq_zero_right h)

end

theorem rows_pair (t : Text) : rows ('\r' :: '\n' :: t) = ['\r'] :: rows t := by
  rw [rows_cons (by decide), rows_newline]
  rfl

/-- A break that is neither a line feed nor the first half of a pair ends no row. -/
theorem isInnerBreak_eq {c : Char} {t : Text} (hpair : ∀ u, c = '\r' → t = '\n' :: u → False) :
    isInnerBreak c t = (isLineBreak c && c != '\n') := by
  have hhead : (c == '\r' && t.head? == some '\n') = false := by
    rw [Bool.eq_false_iff]
    intro h
    obtain ⟨hc, ht⟩ := Bool.and_eq_true_iff.mp h
    obtain ⟨u, hu⟩ := List.head?_eq_some_iff.mp (beq_iff_eq.mp ht)
    exact hpair u (beq_iff_eq.mp hc) hu
  rw [isInnerBreak, hhead, Bool.not_false, Bool.and_true]

/-- Each break that ends no row makes one display line more. -/
theorem length_displayLines (t : Text) :
    (displayLines t).length = (rows t).length + innerBreaks t := by
  fun_induction displayLines t with
  | case1 => rfl
  | case2 t ih =>
      have hpair : innerBreaks ('\r' :: '\n' :: t) = innerBreaks t := rfl
      rw [rows_pair, hpair, List.length_cons, List.length_cons, ih]
      omega
  | case3 c t hpair hbreak ih =>
      rw [innerBreaks, isInnerBreak_eq hpair, hbreak, List.length_cons, ih]
      by_cases hc : c = '\n'
      · subst hc
        rw [rows_newline, List.length_cons]
        simp
        omega
      · rw [rows_cons hc, List.length_modifyHead]
        simp [hc]
        omega
  | case4 c t hpair hbreak ih =>
      have hc : c ≠ '\n' := by
        rintro rfl
        exact hbreak rfl
      rw [innerBreaks, isInnerBreak_eq hpair, Bool.eq_false_iff.mpr hbreak, rows_cons hc,
        List.length_modifyHead, List.length_modifyHead, ih]
      rfl

/-! ## Rows that are shown -/

/-- Whether a display line shows a row: all of it but carriage returns at its end. -/
def Shows (line row : Text) : Prop :=
  ∃ returns, row = shown line ++ returns ∧ ∀ c ∈ returns, c = '\r'

theorem Shows.nil {line : Text} (h : shown line = []) : Shows line [] :=
  ⟨[], by rw [h, List.append_nil], fun _ hc => absurd hc List.not_mem_nil⟩

theorem Shows.cons {line row : Text} {c : Char} (h : Shows line row) (hc : isLineBreak c = false) :
    Shows (c :: line) (c :: row) := by
  obtain ⟨returns, rfl, hreturns⟩ := h
  have hkept : (c != '\n' && c != '\r') = true := by
    rw [Bool.and_eq_true, bne_iff_ne, bne_iff_ne]
    constructor
    · rintro rfl
      exact absurd hc (by decide)
    · rintro rfl
      exact absurd hc (by decide)
  have hshown : shown (c :: line) = c :: shown line := List.filter_cons_of_pos hkept
  exact ⟨returns, by rw [hshown, List.cons_append], hreturns⟩

/-- Up to the first break that ends no row, display lines show rows. -/
theorem Intact.rel {t : Text} {k : Nat} (h : Intact t k) :
    Option.Rel Shows (displayLines t)[k]? (rows t)[k]? := by
  fun_induction displayLines t generalizing k with
  | case1 =>
      cases k with
      | zero => exact .some (.nil rfl)
      | succ k => exact .none
  | case2 t ih =>
      rw [rows_pair]
      cases k with
      | zero => exact .some ⟨['\r'], rfl, fun c hc => List.mem_singleton.mp hc⟩
      | succ k => exact ih (h.tail (by decide)).below
  | case3 c t hpair hbreak ih =>
      -- in an intact text the only break outside of a pair is the newline
      have hhead := h.head
      rw [isInnerBreak_eq hpair, hbreak, Bool.true_and] at hhead
      obtain rfl : c = '\n' := bne_eq_false_iff_eq.mp hhead
      rw [rows_newline]
      cases k with
      | zero => exact .some (.nil rfl)
      | succ k => exact ih h.below
  | case4 c t hpair hbreak ih =>
      have hc : c ≠ '\n' := by
        rintro rfl
        exact hbreak rfl
      have hrest := ih (h.tail hc)
      rw [rows_cons hc]
      cases k with
      | zero =>
          rw [List.getElem?_modifyHead_zero, List.getElem?_modifyHead_zero]
          generalize (displayLines t)[0]? = line, (rows t)[0]? = row at hrest
          cases hrest with
          | some hshows => exact .some (hshows.cons (Bool.eq_false_iff.mpr hbreak))
          | none => exact .none
      | succ k =>
          rw [List.getElem?_modifyHead_succ, List.getElem?_modifyHead_succ]
          exact hrest

/-- Any part of a row that is shown is shown at its place, carriage returns left out. -/
theorem Shows.part {line row : Text} (h : Shows line row) (start length : Nat) :
    ((shown line).drop start).take length
      = withoutReturns ((row.drop start).take length) := by
  obtain ⟨returns, rfl, hreturns⟩ := h
  have hkept : ∀ c ∈ ((shown line).drop start).take length, (c != '\r') = true := by
    intro c hc
    have hmem := List.mem_of_mem_drop (List.mem_of_mem_take hc)
    exact (Bool.and_eq_true_iff.mp (List.mem_filter.mp hmem).2).2
  have hdropped (m n : Nat) : ∀ c ∈ (returns.drop m).take n, ¬ (c != '\r') = true := by
    intro c hc
    simp [hreturns c (List.mem_of_mem_drop (List.mem_of_mem_take hc))]
  rw [withoutReturns, List.drop_append, List.take_append, List.filter_append,
    List.filter_eq_self.mpr hkept, List.filter_eq_nil_iff.mpr (hdropped _ _), List.append_nil]

/-- A row that is shown is shown without its carriage returns. -/
theorem Shows.eq {line row : Text} (h : Shows line row) : shown line = withoutReturns row := by
  have hwhole := h.part 0 row.length
  obtain ⟨returns, hrow, -⟩ := h
  have hle : (shown line).length ≤ row.length := by
    rw [hrow, List.length_append]
    omega
  rwa [List.drop_zero, List.drop_zero, List.take_length, List.take_of_length_le hle] at hwhole

theorem Intact.displayLine?_eq {t : Text} {k : Nat} (h : Intact t k) :
    displayLine? t k = (rows t)[k]?.map withoutReturns := by
  have hrel := h.rel
  rw [displayLine?]
  generalize (displayLines t)[k]? = line, (rows t)[k]? = row at hrel
  cases hrel with
  | some hshows => exact congrArg some hshows.eq
  | none => rfl

theorem isSome_displayLine?_iff {t : Text} {k : Nat} :
    (displayLine? t k).isSome = true ↔ k < (rows t).length + innerBreaks t := by
  rw [← length_displayLines, displayLine?, Option.isSome_map]
  simp

end Text

/-! ## Tracked scripts -/

namespace Workspace

variable {w : Workspace} {path : Path} {t : Text}

/-- The text shown for a token is that of its lexeme, as long as no display line ends within a row
    before it. -/
theorem tokenText_eq {k : Token} {l : Lexeme} (ht : w.text? path = some t)
    (hl : l ∈ (scan t).lexemes) (hspan : k.span = l.span) (hintact : Intact t k.line) :
    Command.tokenText w path k = withoutReturns l.text := by
  obtain ⟨hline, hcolumn, hlength⟩ :
      k.line = l.line ∧ k.column = l.column ∧ k.length = l.length := by
    simp only [Token.span, Lexeme.span, Lexeme.endColumn, Span.onLine, Span.mk.injEq,
      Position.mk.injEq] at hspan
    omega
  obtain ⟨-, row, hrow, -, htext⟩ := scan_lexemes_placed hl
  have hrel := hintact.rel
  rw [hline, hrow] at hrel
  generalize hdisplay : (displayLines t)[l.line]? = found at hrel
  cases hrel with
  | @some line _ hshows =>
      have hshown : w.displayLine? path k.line = some (shown line) := by
        rw [displayLine?, ht, Option.bind_some, Text.displayLine?, hline, hdisplay]
        rfl
      rw [Command.tokenText, hshown, hcolumn, hlength, htext]
      exact hshows.part l.column l.length

/-- **DISPLAY LINES**: a tracked script has one display line for each row and one more for each
    break that ends no row.  Up to the first such break they are the rows without their carriage
    returns, and the text shown for a token is that of its lexeme; only without such a break is this
    so for the whole script. -/
theorem displayLines_against_rows (settings : Settings) (root : Path) (disk : Disk)
    (ops : List Operation) {path : Path} {t : Text}
    (ht : ((empty settings root).run disk ops).text? path = some t) :
    let w := (empty settings root).run disk ops
    (∃ d, w.document? path = some d ∧ d.lines.length = (rows t).length)
      ∧ (∀ k, (w.displayLine? path k).isSome = true ↔ k < (rows t).length + innerBreaks t)
      ∧ (∀ k, Intact t k → w.displayLine? path k = (rows t)[k]?.map withoutReturns)
      ∧ ((∀ k, w.displayLine? path k = (rows t)[k]?.map withoutReturns) ↔ innerBreaks t = 0)
      ∧ ∃ ts, w.tokenize path = some ts ∧ ∀ k ∈ ts, ∃ l ∈ (scan t).lexemes, k.span = l.span
        ∧ (Intact t k.line → Command.tokenText w path k = withoutReturns l.text) := by
  intro w
  have hw : Consistent disk w := (Consistent.empty disk settings root).run ops
  obtain ⟨file, hd⟩ := hw.exists_document?_of_text? ht
  have hdisplay (k : Nat) : w.displayLine? path k = Text.displayLine? t k := by
    rw [displayLine?, ht, Option.bind_some]
  simp only [hdisplay]
  refine ⟨⟨_, hd, Scan.length_lines_ofRows .initial 0 (rows t)⟩,
    fun k => isSome_displayLine?_iff, fun k => Intact.displayLine?_eq, ?_, ?_⟩
  · constructor
    · intro hagree
      -- with a break that ends no row there is a display line after the last row
      by_contra hbreaks
      have hextra : (Text.displayLine? t (rows t).length).isSome = true := by
        rw [isSome_displayLine?_iff]
        omega
      rw [hagree, List.getElem?_eq_none (Nat.le_refl _)] at hextra
      exact nomatch hextra
    · intro hbreaks k
      exact (intact_of_innerBreaks_eq_zero hbreaks).displayLine?_eq
  · refine ⟨_, tokenize_eq hd, ?_⟩
    intro k hk
    obtain ⟨s, hs, rfl⟩ := List.mem_map.mp hk
    obtain ⟨i, l, hl, rfl⟩ := mem_sites.mp hs
    have hl := List.mem_of_getElem? hl
    exact ⟨l, hl, span_markedToken, tokenText_eq ht hl span_markedToken⟩

/-- With a vertical tab in its second row, a script of three rows has four display lines. -/
theorem displayLines_of_script_with_vertical_tab :
    let path : Path := ⟨"/w/a.scr".toList⟩
    let t : Text := "main:\r\nlocal.x = \"a\x0bb\"\nend".toList
    let w := (empty .default ⟨"/w".toList⟩).run .empty [.upsert path t]
    w.text? path = some t ∧ (rows t).length = 3 ∧ innerBreaks t = 1
      ∧ (∀ k, (w.displayLine? path k).isSome = true ↔ k < 4)
      ∧ ¬ ∀ k, w.displayLine? path k = (rows t)[k]?.map withoutReturns := by
  intro path t w
  have ht : w.text? path = some t := by decide +kernel
  have hrows : (rows t).length = 3 := by decide +kernel
  have hbreaks : innerBreaks t = 1 := by decide +kernel
  obtain ⟨-, hsome, -, hagree, -⟩ :=
    displayLines_against_rows .default ⟨"/w".toList⟩ .empty [.upsert path t] ht
  rw [hrows, hbreaks] at hsome
  refine ⟨ht, hrows, hbreaks, hsome, ?_⟩
  rw [hagree, hbreaks]
  exact Nat.one_ne_zero

/-- There the last row holds the closing `end`; what is shown as that line, and for the token of that
    word, is the rest of the string before it. -/
theorem end_shown_as_rest_of_string :
    let path : Path := ⟨"/w/a.scr".toList⟩
    let t : Text := "main:\n\"a\x0bb\"\nend".toList
    let w := (empty .default ⟨"/w".toList⟩).run .empty [.upsert path t]
    let k : Token := ⟨2, 0, 3, .keyword, .none⟩
    w.document? path = some (.read path t) ∧ (Document.read path t).lines.length = 3
      ∧ (rows t)[2]? = some "end".toList ∧ (∃ ts, w.tokenize path = some ts ∧ k ∈ ts)
      ∧ w.displayLine? path 2 = some "b\"".toList ∧ Command.tokenText w path k = "b\"".toList
      ∧ w.displayLine? path 3 = some "end".toList := by
  intro path t w k
  have hts : w.tokenize path = some ((w.tokenize path).getD []) := by decide +kernel
  refine ⟨by decide +kernel, by decide +kernel, by decide +kernel, ⟨_, hts, by decide +kernel⟩,
    by decide +kernel, by decide +kernel, by decide +kernel⟩

end Workspace

end ScriptAtlas
