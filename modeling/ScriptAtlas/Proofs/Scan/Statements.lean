import ScriptAtlas.Proofs.Brackets
import ScriptAtlas.Proofs.Scan.Reading

/-! # Statements — control headers on one line and on several

    A backslash at the end of a line carries a statement over to the next.  Whether
    a statement is a control header without braces is said here of its lexemes
    (`IsControlHeader`): how it starts, that it opens no brace, and how it ends.
    The scan carries the start and the braces from line to line but looks for the
    condition on the last line alone.  The route:

    * the end of a condition is found by counting parentheses (`endsWithClose_iff`);
    * what a row does to the state of a statement, said by its lexemes
      (`RowEffect`), and what the rows of a statement do together
      (`InStatement`);
    * hence the line after a statement is taken for a body exactly when the
      statement is a header whose condition is looked for on its last line
      (`bracelessBody_after_statement`). -/

namespace ScriptAtlas

open Vocabulary Text

namespace Scan

/-! ## Statements and headers -/

/-- The lexemes of a line other than comments. -/
def wordsOn (s : Scan) (line : Nat) : List Lexeme :=
  s.lexemes.filter fun l => l.line == line && l.isSignificant

/-- Whether a line ends in a backslash. -/
def endsOpen (s : Scan) (line : Nat) : Bool := (s.wordsOn line).getLast?.any (isSign "\\")

/-- Whether a statement stands on the lines from `first` to `last`. -/
structure IsStatement (s : Scan) (first last : Nat) : Prop where
  le : first ≤ last
  words : s.wordsOn first ≠ []
  starts : ∃ info, s.lines[first]? = some info ∧ info.continued = false
  goesOn : ∀ line, first < line → line ≤ last →
    ∃ info, s.lines[line]? = some info ∧ info.continued = true
  stops : s.endsOpen last = false

/-- The lexemes of a statement before its last line, without the backslashes that carry it on. -/
def earlierWords (s : Scan) (first last : Nat) : List Lexeme :=
  (List.range' first (last - first)).flatMap fun line => (s.wordsOn line).dropLast

/-- The lexemes of a statement. -/
def statementWords (s : Scan) (first last : Nat) : List Lexeme :=
  s.earlierWords first last ++ s.wordsOn last

/-- Whether the parentheses of a statement open on its last line, and its first line holds more than
    a backslash. -/
def opensOnLast (s : Scan) (first last : Nat) : Prop :=
  (∀ l ∈ s.earlierWords first last, isSign "(" l = false)
    ∧ (first = last ∨ (s.wordsOn first).dropLast ≠ [])

end Scan

/-- Whether lexemes start with a keyword that may take a body without braces. -/
def startsControl (ls : List Lexeme) : Bool :=
  ls.head?.any fun l => l.kind == .keyword && isControlHeader l.text

/-- Whether lexemes start with `else`. -/
def startsElse (ls : List Lexeme) : Bool :=
  ls.head?.any fun l => l.kind == .keyword && sameName l.text "else".toList

/-- Whether lexemes end with `else`. -/
def endsElse (ls : List Lexeme) : Bool := ls.getLast?.any (·.isKeyword "else")

/-- Whether the parenthesis that closes the first group is the last lexeme. -/
def ClosesCondition (ls : List Lexeme) : Prop :=
  ∃ before opening inner closing, ls = before ++ opening :: (inner ++ [closing])
    ∧ (∀ l ∈ before, isSign "(" l = false) ∧ isSign "(" opening = true
    ∧ Balanced (isSign "(") (isSign ")") inner ∧ isSign ")" closing = true

/-- A control header without braces: `start` are the lexemes that its first word is looked for in,
    and `ending` those that its `else` or its condition is. -/
structure IsControlHeader (start statement ending : List Lexeme) : Prop where
  control : startsControl start = true
  braceless : statement.any (isSign "\x7b") = false
  closed : (startsElse start && endsElse ending) = true ∨ ClosesCondition ending

/-- A control header without braces, looked at as a whole. -/
def IsHeaderStatement (statement : List Lexeme) : Prop :=
  IsControlHeader statement statement statement

/-! ## Conditions -/

section

variable {l : Lexeme} {ls ms : List Lexeme}

/-- After the parenthesis that opens it, a condition is closed by counting. -/
theorem closesCondition_open (h : isSign "(" l = true) : ClosesCondition (l :: ls)
    ↔ afterClose (isSign "(") (isSign ")") 0 ls = some [] := by
  rw [afterClose_eq_some_iff]
  constructor
  · rintro ⟨before, opening, inner, closing, heq, hbefore, -, hinner, hclosing⟩
    cases before with
    | nil =>
        obtain ⟨-, rfl⟩ := List.cons.inj heq
        exact ⟨inner, closing, rfl, hinner, isSign_other hclosing (by decide), hclosing⟩
    | cons m before =>
        obtain ⟨rfl, -⟩ := List.cons.inj heq
        rw [hbefore l List.mem_cons_self] at h
        exact absurd h Bool.false_ne_true
  · rintro ⟨inner, closing, rfl, hinner, -, hclosing⟩
    exact ⟨[], l, inner, closing, rfl, List.forall_mem_nil _, h, hinner, hclosing⟩

theorem closesCondition_other (h : isSign "(" l = false) :
    ClosesCondition (l :: ls) ↔ ClosesCondition ls := by
  constructor
  · rintro ⟨before, opening, inner, closing, heq, hbefore, hopening, hrest⟩
    cases before with
    | nil =>
        obtain ⟨rfl, -⟩ := List.cons.inj heq
        rw [h] at hopening
        exact absurd hopening Bool.false_ne_true
    | cons m before =>
        obtain ⟨rfl, rfl⟩ := List.cons.inj heq
        exact ⟨before, opening, inner, closing, rfl, (List.forall_mem_cons.mp hbefore).2, hopening,
          hrest⟩
  · rintro ⟨before, opening, inner, closing, rfl, hbefore, hrest⟩
    exact ⟨l :: before, opening, inner, closing, rfl, List.forall_mem_cons.mpr ⟨h, hbefore⟩, hrest⟩

theorem not_closesCondition_nil : ¬ ClosesCondition [] := by
  rintro ⟨before, opening, inner, closing, heq, -⟩
  exact absurd heq.symm (by simp)

/-- Lexemes that open no parenthesis do not matter to what follows them. -/
theorem closesCondition_append (h : ∀ m ∈ ms, isSign "(" m = false) :
    ClosesCondition (ms ++ ls) ↔ ClosesCondition ls := by
  induction ms with
  | nil => rfl
  | cons m ms ih =>
      obtain ⟨hm, hms⟩ := List.forall_mem_cons.mp h
      rw [List.cons_append, closesCondition_other hm, ih hms]

/-- A condition that opens earlier is not closed where a condition of the rest is. -/
theorem not_closesCondition_append (h : ∃ m ∈ ms, isSign "(" m = true)
    (hls : ClosesCondition ls) : ¬ ClosesCondition (ms ++ ls) := by
  obtain ⟨before, opening, inner, closing, rfl, -, hopening, hinner, hclosing⟩ := hls
  have hlater : afterClose (isSign "(") (isSign ")") 0
      (inner ++ [closing]) = some [] :=
    afterClose_eq_some_iff.mpr
      ⟨inner, closing, rfl, hinner, isSign_other hclosing (by decide), hclosing⟩
  induction ms with
  | nil =>
      obtain ⟨m, hm, -⟩ := h
      exact absurd hm List.not_mem_nil
  | cons m ms ih =>
      rw [List.cons_append]
      by_cases hm : isSign "(" m = true
      · rw [closesCondition_open hm, ← List.append_assoc]
        exact afterClose_ne_of_later (ms ++ before) hopening hlater
      · have hm' := Bool.eq_false_iff.mpr hm
        rw [closesCondition_other hm']
        refine ih ?_
        obtain ⟨x, hx, hopen⟩ := h
        rcases List.mem_cons.mp hx with rfl | hx
        · exact absurd hopen hm
        · exact ⟨x, hx, hopen⟩

end

/-! ## Lexemes and pieces -/

/-- The piece that a lexeme was laid out from. -/
def Lexeme.piece (l : Lexeme) : Piece := .lexeme l.kind l.text

theorem Lexeme.isOperator_piece (l : Lexeme) (op : String) :
    l.piece.isOperator op = isSign op l := by
  unfold isSign Lexeme.isOperator Lexeme.piece
  cases l.kind <;> rfl

/-- Laying out keeps the pieces that are significant. -/
theorem Piece.filter_layOut (line column : Nat) (ps : List Piece) :
    ((layOut line column ps).filter Lexeme.isSignificant).map Lexeme.piece
      = ps.filter Piece.isSignificant := by
  induction ps generalizing column with
  | nil => rfl
  | cons p ps ih =>
      cases p with
      | gap t => exact ih (column + t.length)
      | lexeme k t =>
          rw [layOut, List.filter_cons, List.filter_cons]
          by_cases hk : k.isSignificant = true
          · rw [if_pos (show Lexeme.isSignificant ⟨line, column, k, t⟩ = true from hk),
              if_pos (show (Piece.lexeme k t).isSignificant = true from hk), List.map_cons, ih]
            rfl
          · rw [if_neg (show ¬ Lexeme.isSignificant ⟨line, column, k, t⟩ = true from hk),
              if_neg (show ¬ (Piece.lexeme k t).isSignificant = true from hk), ih]

namespace Scan

/-- The end of a condition, in pieces. -/
theorem endsWithClose_succ_iff (depth : Nat) (ls : List Lexeme) :
    endsWithClose (depth + 1) (ls.map Lexeme.piece) = true
      ↔ afterClose (isSign "(") (isSign ")") depth ls = some [] := by
  induction ls generalizing depth with
  | nil => simp [endsWithClose, afterClose]
  | cons l ls ih =>
      rw [List.map_cons, endsWithClose, Lexeme.isOperator_piece, Lexeme.isOperator_piece]
      by_cases hopen : isSign "(" l = true
      · rw [if_pos hopen, ih, afterClose_open hopen]
      · rw [if_neg hopen]
        rw [Bool.not_eq_true] at hopen
        by_cases hclose : isSign ")" l = true
        · cases depth with
          | zero =>
              rw [afterClose_close_zero hopen hclose]
              simp [hclose]
          | succ depth =>
              rw [afterClose_close_succ hopen hclose, ← ih]
              simp [hclose]
        · rw [Bool.not_eq_true] at hclose
          rw [afterClose_other hopen hclose, ← ih]
          simp [hclose]

theorem endsWithClose_iff (ls : List Lexeme) :
    endsWithClose 0 (ls.map Lexeme.piece) = true ↔ ClosesCondition ls := by
  induction ls with
  | nil => simp [endsWithClose, not_closesCondition_nil]
  | cons l ls ih =>
      rw [List.map_cons, endsWithClose, Lexeme.isOperator_piece, Lexeme.isOperator_piece]
      by_cases hopen : isSign "(" l = true
      · rw [if_pos hopen, endsWithClose_succ_iff, closesCondition_open hopen]
      · rw [if_neg hopen, closesCondition_other (Bool.eq_false_iff.mpr hopen), ← ih]
        simp

theorem isControlHeader_lower (t : Text) : isControlHeader (lower t) = isControlHeader t := by
  rw [isControlHeader, lower_lower, isControlHeader]

/-- A statement starts with `else` when its first word does, in any letter case. -/
theorem beq_else_lower (t : Text) : (lower t == "else".toList) = sameName t "else".toList := by
  rw [sameName, show lower "else".toList = "else".toList by decide]

theorem headOf_keyword {l : Lexeme} {ls : List Lexeme} (h : l.kind = .keyword) :
    headOf ((l :: ls).map Lexeme.piece) = some (lower l.text) := by
  rw [List.map_cons, Lexeme.piece, h, headOf]

theorem headOf_other {l : Lexeme} {ls : List Lexeme} (h : l.kind ≠ .keyword) :
    headOf ((l :: ls).map Lexeme.piece) = none := by
  rw [List.map_cons, Lexeme.piece]
  unfold headOf
  split
  · rename_i heq
    exact absurd (Piece.lexeme.inj (List.cons.inj heq).1).1 h
  · rfl

/-- The test for a header is about lexemes. -/
theorem isBracelessHeader_iff (start statement ending : List Lexeme) :
    isBracelessHeader (headOf (start.map Lexeme.piece)) (statement.any (isSign "\x7b"))
        (ending.map Lexeme.piece) = true
      ↔ IsControlHeader start statement ending := by
  have hending : (ending.map Lexeme.piece).getLast?.any (Piece.isKeyword "else")
      = endsElse ending := by
    rw [endsElse, List.getLast?_map, Option.any_map]
    refine congrArg (ending.getLast?.any ·) (funext fun l => l.isKeyword_piece "else")
  cases start with
  | nil =>
      exact ⟨fun h => absurd h Bool.false_ne_true, fun h => absurd h.control Bool.false_ne_true⟩
  | cons l start =>
      by_cases hl : l.kind = .keyword
      · rw [headOf_keyword hl, isBracelessHeader, hending, Bool.and_eq_true, Bool.and_eq_true,
          Bool.or_eq_true, endsWithClose_iff, isControlHeader_lower, beq_else_lower,
          Bool.not_eq_true']
        have hcontrol : startsControl (l :: start) = isControlHeader l.text := by
          simp [startsControl, hl]
        have helse : startsElse (l :: start) = sameName l.text "else".toList := by
          simp [startsElse, hl]
        rw [← hcontrol, ← helse]
        exact ⟨fun h => ⟨h.1.1, h.1.2, h.2⟩, fun h => ⟨⟨h.control, h.braceless⟩, h.closed⟩⟩
      · rw [headOf_other hl]
        refine ⟨fun h => absurd h Bool.false_ne_true, fun h => ?_⟩
        have hcontrol := h.control
        rw [startsControl, List.head?_cons, Option.any_some, beq_false_of_ne hl] at hcontrol
        exact absurd hcontrol Bool.false_ne_true

/-! ## What a row does to a statement -/

/-- Noting pieces leaves alone what is known of the statement. -/
theorem State.noteAll_statement (s : State) (ps : List Piece) :
    (s.noteAll ps).head = s.head ∧ (s.noteAll ps).openedBrace = s.openedBrace := by
  induction ps generalizing s with
  | nil => exact ⟨rfl, rfl⟩
  | cons p ps ih =>
      rw [State.noteAll_cons, (ih _).1, (ih _).2]
      cases p with
      | gap t => exact ⟨rfl, rfl⟩
      | lexeme k t => cases k <;> exact ⟨rfl, rfl⟩

/-- Only the significant pieces are noted. -/
theorem State.noteAll_filter (s : State) (ps : List Piece) :
    s.noteAll (ps.filter Piece.isSignificant) = s.noteAll ps := by
  induction ps generalizing s with
  | nil => rfl
  | cons p ps ih =>
      by_cases hp : p.isSignificant = true
      · rw [List.filter_cons_of_pos hp, State.noteAll_cons, State.noteAll_cons, ih]
      · rw [List.filter_cons_of_neg hp, State.noteAll_cons, ih,
          (Piece.isPlain_of_insignificant (Bool.eq_false_iff.mpr hp)).note_eq]

/-- A pending body is forgotten at the header of a thread. -/
theorem State.noteAll_pending (s : State) (ls : List Lexeme) :
    (s.noteAll (ls.map Lexeme.piece)).bracelessPending
      = (s.bracelessPending && !ls.any (·.kind.isThreadName)) := by
  induction ls generalizing s with
  | nil => rw [List.any_nil, Bool.not_false, Bool.and_true]; rfl
  | cons l ls ih =>
      have hstep : (s.note l.piece).bracelessPending
          = (s.bracelessPending && !l.kind.isThreadName) := by
        rw [Lexeme.piece]
        cases l.kind with
        | threadName role => exact (Bool.and_false _).symm
        | _ => exact (Bool.and_true _).symm
      rw [List.map_cons, State.noteAll_cons, ih, hstep, List.any_cons, Bool.not_or, Bool.and_assoc]

/-- How a row takes the state `s` before it to the state `s'` after it, by its lexemes other than
    comments. -/
structure RowEffect (s s' : State) (words : List Lexeme) : Prop where
  continued : s'.continued = words.getLast?.any (isSign "\\")
  head : words ≠ [] → s'.head = if s.continued then s.head else headOf (words.map Lexeme.piece)
  openedBrace : words ≠ [] →
    s'.openedBrace = ((s.continued && s.openedBrace) || words.any (isSign "\x7b"))
  /-- While the statement goes on, and at an empty row, a pending body stays pending. -/
  kept : words = [] ∨ words.getLast?.any (isSign "\\") = true →
    s'.bracelessPending = (s.bracelessPending && !words.any (·.kind.isThreadName))
  /-- At its end the statement is tested, with the lexemes of the row alone. -/
  decided : words ≠ [] → words.getLast?.any (isSign "\\") = false →
    s'.bracelessPending
      = isBracelessHeader s'.head s'.openedBrace (words.map Lexeme.piece)

theorem any_isSign_map (op : String) (ls : List Lexeme) :
    (ls.map Lexeme.piece).any (Piece.isOperator op) = ls.any (isSign op) := by
  rw [List.any_map]
  exact congrArg (ls.any ·) (funext fun l => l.isOperator_piece op)

theorem getLast?_isSign_map (op : String) (ls : List Lexeme) :
    (ls.map Lexeme.piece).getLast?.any (Piece.isOperator op) = ls.getLast?.any (isSign op) := by
  rw [List.getLast?_map, Option.any_map]
  exact congrArg (ls.getLast?.any ·) (funext fun l => l.isOperator_piece op)

/-- Every row has its effect. -/
theorem rowEffect_afterRow {s : State} {row : Text} {words : List Lexeme}
    (hwords : words.map Lexeme.piece = (cutRow s row).pieces.filter Piece.isSignificant) :
    RowEffect s ((cutRow s row).state.afterRow (cutRow s row).pieces) words := by
  have hcontinued : (cutRow s row).state.continued = s.continued := by
    rw [cutRow_noted]
    exact State.noteAll_continued s _
  have hhead : (cutRow s row).state.head = s.head := by
    rw [cutRow_noted]
    exact (State.noteAll_statement s _).1
  have hopened : (cutRow s row).state.openedBrace = s.openedBrace := by
    rw [cutRow_noted]
    exact (State.noteAll_statement s _).2
  have hpending : (cutRow s row).state.bracelessPending
      = (s.bracelessPending && !words.any (·.kind.isThreadName)) := by
    rw [cutRow_noted, ← State.noteAll_filter, ← hwords]
    exact State.noteAll_pending s words
  -- a row without words passes the statement on, one with words decides it at its end
  unfold State.afterRow
  dsimp only
  rw [← hwords]
  cases words with
  | nil =>
      exact ⟨rfl, fun h => absurd rfl h, fun h => absurd rfl h, fun _ => hpending,
        fun h => absurd rfl h⟩
  | cons l words =>
      rw [if_neg (by simp), getLast?_isSign_map, any_isSign_map, hcontinued, hhead, hopened]
      refine ⟨rfl, fun _ => rfl, fun _ => rfl, fun h => ?_, fun _ h => ?_⟩
      · have hlast := h.resolve_left (List.cons_ne_nil _ _)
        exact (if_pos hlast).trans hpending
      · exact if_neg (Bool.eq_false_iff.mp h)

/-! ## The lines of a text -/

/-- The state before a line. -/
def stateAt (t : Text) (line : Nat) : State := State.initial.afterRows ((rows t).take line)

/-- A line that starts a statement is a body when one is pending. -/
theorem State.info_bracelessBody {s : State} (h : s.continued = false) :
    s.info.bracelessBody = s.bracelessPending := by
  rw [State.info, h, Bool.not_false, Bool.true_and]

/-- A line inherits what its state says. -/
theorem getElem?_lines_scan (t : Text) (line : Nat) :
    (scan t).lines[line]? = (rows t)[line]?.map fun _ => (stateAt t line).info :=
  getElem?_lines_ofRows .initial 0 (rows t) line

/-- Every line of a text has its effect on the state. -/
theorem rowEffect_line {t : Text} {line : Nat} (hline : line < (rows t).length) :
    RowEffect (stateAt t line) (stateAt t (line + 1)) ((scan t).wordsOn line) := by
  have hrow : (rows t)[line]? = some (rows t)[line] := List.getElem?_eq_getElem hline
  have hnext : stateAt t (line + 1)
      = (cutRow (stateAt t line) (rows t)[line]).state.afterRow
          (cutRow (stateAt t line) (rows t)[line]).pieces := by
    rw [stateAt, List.take_add_one, hrow, State.afterRows, List.foldl_append]
    rfl
  rw [hnext]
  refine rowEffect_afterRow ?_
  rw [wordsOn, List.filter_congr fun l _ => Bool.and_comm (l.line == line) l.isSignificant,
    ← List.filter_filter, scan, filter_line_ofRows .initial hrow, Piece.filter_layOut]
  rfl

/-! ## The lines of a statement -/

theorem earlierWords_self (s : Scan) (line : Nat) : s.earlierWords line line = [] := by
  rw [earlierWords, Nat.sub_self]
  rfl

theorem earlierWords_succ (s : Scan) {first line : Nat} (h : first ≤ line) :
    s.earlierWords first (line + 1)
      = s.earlierWords first line ++ (s.wordsOn line).dropLast := by
  rw [earlierWords, Nat.succ_sub h, List.range'_1_concat, List.flatMap_append,
    Nat.add_sub_cancel' h, List.flatMap_singleton]
  rfl

/-- The backslash that carries a statement on is no brace and names no thread. -/
theorem any_dropLast_of_backslash {words : List Lexeme} {p : Lexeme → Bool}
    (hlast : words.getLast?.any (isSign "\\") = true)
    (hp : ∀ l, isSign "\\" l = true → p l = false) : words.any p = words.dropLast.any p := by
  obtain ⟨l, hl, hsign⟩ := (Option.any_eq_true _ _).mp hlast
  obtain ⟨before, rfl⟩ := List.getLast?_eq_some_iff.mp hl
  rw [List.dropLast_concat, List.any_append, List.any_cons, hp l hsign, List.any_nil, Bool.or_false,
    Bool.or_false]

/-- What is known before a line of a statement: the first word and the braces of the lines before
    it, and whether the statement itself is a pending body. -/
structure InStatement (t : Text) (first line : Nat) : Prop where
  head : (if (stateAt t line).continued then (stateAt t line).head
      else headOf (((scan t).wordsOn line).map Lexeme.piece))
    = headOf (((scan t).wordsOn first).map Lexeme.piece)
  openedBrace : ((stateAt t line).continued && (stateAt t line).openedBrace)
    = ((scan t).earlierWords first line).any (isSign "\x7b")
  pending : (stateAt t line).bracelessPending = ((stateAt t first).bracelessPending
    && !((scan t).earlierWords first line).any (·.kind.isThreadName))

theorem isThreadName_of_isSign {op : String} {l : Lexeme} (h : isSign op l = true) :
    l.kind.isThreadName = false := by
  rw [(isSign_iff.mp h).1]
  rfl

/-- A line that carries the statement on keeps it known. -/
theorem InStatement.next {t : Text} {first line : Nat} (h : InStatement t first line)
    (hle : first ≤ line) (hline : line < (rows t).length)
    (hcontinued : (stateAt t (line + 1)).continued = true) : InStatement t first (line + 1) := by
  have heffect := rowEffect_line hline
  have hlast : ((scan t).wordsOn line).getLast?.any (isSign "\\") = true :=
    heffect.continued.symm.trans hcontinued
  have hne : (scan t).wordsOn line ≠ [] := by
    intro hnil
    rw [hnil] at hlast
    exact Bool.false_ne_true hlast
  refine ⟨?_, ?_, ?_⟩
  · rw [if_pos hcontinued, heffect.head hne, h.head]
  · rw [hcontinued, Bool.true_and, heffect.openedBrace hne, h.openedBrace, earlierWords_succ _ hle,
      List.any_append, any_dropLast_of_backslash hlast fun _ h => isSign_other h (by decide)]
  · rw [heffect.kept (Or.inr hlast), h.pending, earlierWords_succ _ hle, List.any_append,
      any_dropLast_of_backslash hlast fun _ => isThreadName_of_isSign, Bool.not_or, Bool.and_assoc]

/-- Every line of a statement is known from the lines before it. -/
theorem IsStatement.inStatement {t : Text} {first last : Nat}
    (h : (scan t).IsStatement first last) : InStatement t first last := by
  have hcontinued : ∀ {line : Nat} {b : Bool},
      (∃ info, (scan t).lines[line]? = some info ∧ info.continued = b) →
        line < (rows t).length ∧ (stateAt t line).continued = b := by
    rintro line b ⟨info, hinfo, rfl⟩
    rw [getElem?_lines_scan] at hinfo
    obtain ⟨row, hrow, rfl⟩ := Option.map_eq_some_iff.mp hinfo
    exact ⟨(List.getElem?_eq_some_iff.mp hrow).1, rfl⟩
  -- up to any line of the statement, by the number of lines before it
  have hupTo : ∀ line, first ≤ line → line ≤ last → InStatement t first line := by
    intro line hfirst
    induction line, hfirst using Nat.le_induction with
    | base =>
        intro _
        have hstart := (hcontinued h.starts).2
        refine ⟨?_, ?_, ?_⟩
        · rw [hstart, if_neg Bool.false_ne_true]
        · rw [hstart, earlierWords_self, Bool.false_and, List.any_nil]
        · rw [earlierWords_self, List.any_nil, Bool.not_false, Bool.and_true]
    | succ line hfirst ih =>
        intro hlast
        obtain ⟨hlength, hnext⟩ := hcontinued (h.goesOn (line + 1) (by omega) hlast)
        exact (ih (by omega)).next hfirst (by omega) hnext
  exact hupTo last h.le (Nat.le_refl last)

/-- Lines without words keep a body pending, and do not carry a statement on. -/
theorem stateAt_after_blank {t : Text} {start line : Nat} (hle : start ≤ line)
    (hline : line ≤ (rows t).length) (hstart : (stateAt t start).continued = false)
    (hblank : ∀ k, start ≤ k → k < line → (scan t).wordsOn k = []) :
    (stateAt t line).continued = false
      ∧ (stateAt t line).bracelessPending = (stateAt t start).bracelessPending := by
  induction line, hle using Nat.le_induction with
  | base => exact ⟨hstart, rfl⟩
  | succ line hle ih =>
      have heffect := rowEffect_line (Nat.lt_of_lt_of_le (Nat.lt_succ_self line) hline)
      have hnil := hblank line hle (Nat.lt_succ_self line)
      obtain ⟨-, hpending⟩ := ih (by omega) fun k hk hlt => hblank k hk (by omega)
      refine ⟨?_, ?_⟩
      · rw [heffect.continued, hnil]
        rfl
      · rw [heffect.kept (Or.inl hnil), hnil, hpending, List.any_nil, Bool.not_false, Bool.and_true]

/-! ## Headers on one line and on several -/

theorem endsElse_of_closesCondition {ls : List Lexeme} (h : ClosesCondition ls) :
    endsElse ls = false := by
  obtain ⟨before, opening, inner, closing, rfl, -, -, -, hclosing⟩ := h
  rw [endsElse, ← List.cons_append, ← List.append_assoc, List.getLast?_concat, Option.any_some,
    Lexeme.isKeyword, (isSign_iff.mp hclosing).1]
  rfl

theorem endsElse_append {ms ls : List Lexeme} (h : ls ≠ []) :
    endsElse (ms ++ ls) = endsElse ls := by
  rw [endsElse, List.getLast?_append_of_ne_nil ms h, endsElse]

/-- A statement starts with the first word of its first line, if there is one but for a
    backslash. -/
theorem head?_statementWords (s : Scan) {first last : Nat} (hle : first ≤ last)
    (h : first = last ∨ (s.wordsOn first).dropLast ≠ []) :
    (s.statementWords first last).head? = (s.wordsOn first).head? := by
  rcases Nat.eq_or_lt_of_le hle with rfl | hlt
  · rw [statementWords, earlierWords_self, List.nil_append]
  · have hne := h.resolve_left (Nat.ne_of_lt hlt)
    obtain ⟨n, hn⟩ : ∃ n, last - first = n + 1 := ⟨last - first - 1, by omega⟩
    rw [statementWords, earlierWords, hn, List.range'_succ, List.flatMap_cons, List.append_assoc,
      List.head?_append_of_ne_nil _ hne]
    cases hwords : s.wordsOn first with
    | nil => rfl
    | cons l ls =>
        cases ls with
        | nil =>
            rw [hwords] at hne
            exact absurd rfl hne
        | cons m ls => rfl

/-- Where the condition opens on the last line, looking for it there is looking for it in the whole
    statement. -/
theorem isHeader_statement_iff {s : Scan} {first last : Nat} (hle : first ≤ last)
    (hwords : s.wordsOn last ≠ []) (h : s.opensOnLast first last) :
    IsControlHeader (s.wordsOn first) (s.statementWords first last) (s.wordsOn last)
      ↔ IsHeaderStatement (s.statementWords first last) := by
  have hhead := head?_statementWords s hle h.2
  have hcontrol : startsControl (s.statementWords first last)
      = startsControl (s.wordsOn first) := by
    rw [startsControl, hhead, startsControl]
  have helse : startsElse (s.statementWords first last) = startsElse (s.wordsOn first) := by
    rw [startsElse, hhead, startsElse]
  have hend : endsElse (s.statementWords first last) = endsElse (s.wordsOn last) :=
    endsElse_append hwords
  have hcloses : ClosesCondition (s.statementWords first last) ↔ ClosesCondition (s.wordsOn last) :=
    closesCondition_append h.1
  constructor
  · intro hheader
    refine ⟨hcontrol.trans hheader.control, hheader.braceless, ?_⟩
    rw [helse, hend, hcloses]
    exact hheader.closed
  · intro hheader
    refine ⟨hcontrol.symm.trans hheader.control, hheader.braceless, ?_⟩
    rw [← helse, ← hend, ← hcloses]
    exact hheader.closed

end Scan

/-- **HEADERS OVER LINES**: the line that starts the next statement is taken for a body exactly when
    the statement starts with a control word, opens no brace, and its last line ends with the `else`
    it started with or with the parenthesis that closes the first one opened on that line.  That is
    the test for the whole statement where no parenthesis opens before the last line; a condition
    that opens before it and closes at its end is missed.  After a last line without words the
    statement is not tested at all: its own line decides. -/
theorem bracelessBody_after_statement (t : Text) {first last line : Nat} {info : LineInfo}
    (hstatement : (scan t).IsStatement first last) (hlast : last < line)
    (hnext : ∀ k, last < k → k < line → (scan t).wordsOn k = [])
    (hinfo : (scan t).lines[line]? = some info) :
    info.continued = false
    ∧ ((scan t).wordsOn last ≠ [] →
        (info.bracelessBody = true ↔ IsControlHeader ((scan t).wordsOn first)
          ((scan t).statementWords first last) ((scan t).wordsOn last))
        ∧ ((scan t).opensOnLast first last → (info.bracelessBody = true
            ↔ IsHeaderStatement ((scan t).statementWords first last)))
        ∧ ((∃ l ∈ (scan t).earlierWords first last, isSign "(" l = true) →
            ClosesCondition ((scan t).statementWords first last) → info.bracelessBody = false))
    ∧ ((scan t).wordsOn last = [] → (info.bracelessBody = true
        ↔ (∃ own, (scan t).lines[first]? = some own ∧ own.bracelessBody = true)
          ∧ ((scan t).statementWords first last).any (·.kind.isThreadName) = false)) := by
  rw [Scan.getElem?_lines_scan] at hinfo
  obtain ⟨row, hrow, rfl⟩ := Option.map_eq_some_iff.mp hinfo
  have hline := (List.getElem?_eq_some_iff.mp hrow).1
  have hknown := hstatement.inStatement
  have heffect := Scan.rowEffect_line (Nat.lt_trans hlast hline)
  have hstop : (Scan.stateAt t (last + 1)).continued = false :=
    heffect.continued.trans hstatement.stops
  -- lines without words pass on what the statement left
  obtain ⟨hcontinued, hpending⟩ := Scan.stateAt_after_blank hlast (Nat.le_of_lt hline) hstop
    fun k hk => hnext k hk
  rw [Scan.State.info_bracelessBody hcontinued, hpending]
  refine ⟨hcontinued, fun hwords => ?_, fun hwords => ?_⟩
  · have hheader : (Scan.stateAt t (last + 1)).bracelessPending = true
        ↔ IsControlHeader ((scan t).wordsOn first) ((scan t).statementWords first last)
          ((scan t).wordsOn last) := by
      rw [heffect.decided hwords hstatement.stops, heffect.head hwords, hknown.head,
        heffect.openedBrace hwords, hknown.openedBrace, ← List.any_append]
      exact Scan.isBracelessHeader_iff _ _ _
    refine ⟨hheader, fun hopens => ?_, fun hopens hcloses => ?_⟩
    · exact hheader.trans (Scan.isHeader_statement_iff hstatement.le hwords hopens)
    · rw [Bool.eq_false_iff, ne_eq, hheader]
      -- a condition that opens before the last line cannot close within that line alone
      rintro ⟨-, -, helse | hends⟩
      · have hend := Scan.endsElse_of_closesCondition hcloses
        rw [Scan.statementWords, Scan.endsElse_append hwords] at hend
        rw [hend, Bool.and_false] at helse
        exact Bool.false_ne_true helse
      · exact not_closesCondition_append hopens hends hcloses
  · obtain ⟨own, hown, hfirst⟩ := hstatement.starts
    rw [heffect.kept (Or.inl hwords), hwords, hknown.pending, List.any_nil, Bool.not_false,
      Bool.and_true, Bool.and_eq_true, Bool.not_eq_true', Scan.statementWords, hwords,
      List.append_nil, hown]
    rw [Scan.getElem?_lines_scan] at hown
    obtain ⟨row', -, rfl⟩ := Option.map_eq_some_iff.mp hown
    rw [← Scan.State.info_bracelessBody (s := Scan.stateAt t first) hfirst]
    refine and_congr_left fun _ => ⟨fun h => ⟨_, rfl, h⟩, ?_⟩
    rintro ⟨own, hown, h⟩
    rw [← Option.some.inj hown] at h
    exact h

/-- A statement on two lines. -/
theorem Scan.isStatement_succ {s : Scan} {line : Nat} {depth : Nat} {body : Bool}
    (h : s.wordsOn line ≠ [] ∧ s.lines[line]? = some ⟨depth, false, body⟩
      ∧ (s.lines[line + 1]?.any (·.continued)) = true ∧ s.endsOpen (line + 1) = false) :
    s.IsStatement line (line + 1) := by
  obtain ⟨hwords, hfirst, hsecond, hstops⟩ := h
  refine ⟨Nat.le_succ line, hwords, ⟨_, hfirst, rfl⟩, ?_, hstops⟩
  intro k hk hle
  obtain rfl : k = line + 1 := by omega
  exact (Option.any_eq_true _ _).mp hsecond

/-- An `else` whose condition stands on the next line is a header over both. -/
theorem bracelessBody_after_split_else :
    let t : Text := "main:\nelse \\\nif (level.a)\n// then\nend\nend".toList
    (scan t).IsStatement 1 2 ∧ (scan t).opensOnLast 1 2
      ∧ (scan t).lines[4]? = some ⟨0, false, true⟩
      ∧ IsHeaderStatement ((scan t).statementWords 1 2) := by
  intro t
  obtain ⟨hlines, hearlier, hwords, hlast, hblank, hinfo⟩ :
      ((scan t).wordsOn 1 ≠ [] ∧ (scan t).lines[1]? = some ⟨0, false, false⟩
        ∧ ((scan t).lines[2]?.any (·.continued)) = true ∧ (scan t).endsOpen 2 = false)
      ∧ (scan t).earlierWords 1 2 = [⟨1, 0, .keyword, "else".toList⟩]
      ∧ ((scan t).wordsOn 1).dropLast ≠ [] ∧ (scan t).wordsOn 2 ≠ [] ∧ (scan t).wordsOn 3 = []
      ∧ (scan t).lines[4]? = some ⟨0, false, true⟩ := by decide +kernel
  have hopens : (scan t).opensOnLast 1 2 := by
    refine ⟨?_, Or.inr hwords⟩
    rw [hearlier]
    exact List.forall_mem_singleton.mpr (by decide)
  have hnext : ∀ k, 2 < k → k < 4 → (scan t).wordsOn k = [] := by
    intro k hfrom hto
    obtain rfl : k = 3 := by omega
    exact hblank
  have hstatement := Scan.isStatement_succ hlines
  obtain ⟨-, htested, -⟩ := bracelessBody_after_statement t hstatement (by decide) hnext hinfo
  exact ⟨hstatement, hopens, hinfo, ((htested hlast).2.1 hopens).mp rfl⟩

/-- A condition over two lines is missed: the statement is a header, but the next line is not taken
    for its body, and the `end` there closes the thread.  On one line the same statement is a header
    to the scan as well. -/
theorem bracelessBody_missed_after_split_condition :
    let split : Text := "main:\nif (level.a && \\\nlevel.b)\nend\nend".toList
    let joined : Text := "main:\nif (level.a && level.b)\nend\nend".toList
    (scan split).IsStatement 1 2 ∧ IsHeaderStatement ((scan split).statementWords 1 2)
      ∧ (scan split).lines[3]? = some ⟨0, false, false⟩
      ∧ ⟨3, 0, .threadEnd, "end".toList⟩ ∈ (scan split).lexemes
      ∧ ((scan split).statementWords 1 2).map Lexeme.piece
          = ((scan joined).statementWords 1 1).map Lexeme.piece
      ∧ (scan joined).lines[2]? = some ⟨0, false, true⟩
      ∧ ⟨2, 0, .keyword, "end".toList⟩ ∈ (scan joined).lexemes := by
  intro split joined
  obtain ⟨hlines, hheader, hrest⟩ :
      ((scan split).wordsOn 1 ≠ [] ∧ (scan split).lines[1]? = some ⟨0, false, false⟩
        ∧ ((scan split).lines[2]?.any (·.continued)) = true ∧ (scan split).endsOpen 2 = false)
      ∧ Scan.isBracelessHeader (Scan.headOf (((scan split).statementWords 1 2).map Lexeme.piece))
          (((scan split).statementWords 1 2).any (isSign "\x7b"))
          (((scan split).statementWords 1 2).map Lexeme.piece) = true
      ∧ (scan split).lines[3]? = some ⟨0, false, false⟩
      ∧ ⟨3, 0, .threadEnd, "end".toList⟩ ∈ (scan split).lexemes
      ∧ ((scan split).statementWords 1 2).map Lexeme.piece
          = ((scan joined).statementWords 1 1).map Lexeme.piece
      ∧ (scan joined).lines[2]? = some ⟨0, false, true⟩
      ∧ ⟨2, 0, .keyword, "end".toList⟩ ∈ (scan joined).lexemes := by decide +kernel
  exact ⟨Scan.isStatement_succ hlines, (Scan.isBracelessHeader_iff _ _ _).mp hheader, hrest⟩

end ScriptAtlas
