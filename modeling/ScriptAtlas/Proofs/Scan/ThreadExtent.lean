import ScriptAtlas.Proofs.Scan.Tracking
import Mathlib.Data.List.Basic
import Mathlib.Data.List.Induction

/-! # Thread extent — where a thread ends, read off the lexemes

    Whether an `end` closes the open thread is decided while scanning, by the
    state of the scan.  Here it is read off the scanned text alone.  The route:

    * whether a thread is open, and how deep its braces are, is a fold over the
      lexemes of the rows before (`afterRows_extent`);
    * the folds are the last header or closing `end`, and the balance of braces
      since the last header (`foldl_stepOpen_iff`, `foldl_stepDepth_eq`);
    * a lexeme of the text splits the lexemes before it into those of earlier
      rows and those of its own row (`split_at_lexeme`);
    * hence an `end` closes a thread exactly under the conditions of
      `threadEnd_iff_and_depth`. -/

namespace ScriptAtlas

open Text

/-- Whether a lexeme names the thread of a header. -/
def Kind.isThreadName : Kind → Bool
  | threadName _ => true
  | _ => false

/-- Whether a lexeme starts or ends the extent of a thread. -/
def Kind.boundsThread : Kind → Bool
  | threadName _ => true
  | threadEnd => true
  | _ => false

/-- The lexemes after the last header, or all if there is none. -/
def sinceHeader (ls : List Lexeme) : List Lexeme :=
  (ls.reverse.takeWhile fun l => !l.kind.isThreadName).reverse

/-- One more lexeme in the balance of braces, which does not go below zero. -/
def countBrace (balance : Nat) (l : Lexeme) : Nat :=
  if l.isOperator "\x7b" then balance + 1 else if l.isOperator "\x7d" then balance - 1 else balance

/-- The balance of opening and closing braces. -/
def braceBalance (ls : List Lexeme) : Nat := ls.foldl countBrace 0

/-! ## Folding over lexemes -/

/-- Whether a thread is open after a lexeme. -/
def stepOpen (isOpen : Bool) (l : Lexeme) : Bool :=
  match l.kind with
  | .threadName _ => true
  | .threadEnd => false
  | _ => isOpen

/-- The depth of braces after a lexeme. -/
def stepDepth (depth : Nat) (l : Lexeme) : Nat :=
  if l.kind.isThreadName then 0 else countBrace depth l

/-- A thread is open after lexemes when the last of them to bound one is a header. -/
theorem foldl_stepOpen_iff (ls : List Lexeme) :
    ls.foldl stepOpen false = true ↔ ∃ m role,
      (ls.filter (·.kind.boundsThread)).getLast? = some m ∧ m.kind = .threadName role := by
  induction ls using List.reverseRecOn with
  | nil => simp
  | append_singleton ls l ih =>
      rw [List.foldl_append, List.filter_append, List.foldl_cons, List.foldl_nil]
      cases hk : l.kind with
      | threadName role => simp [stepOpen, hk, Kind.boundsThread]
      | threadEnd => simp [stepOpen, hk, Kind.boundsThread]
      | _ => simpa [stepOpen, hk, Kind.boundsThread] using ih

theorem sinceHeader_concat (ls : List Lexeme) (l : Lexeme) :
    sinceHeader (ls ++ [l]) = if l.kind.isThreadName then [] else sinceHeader ls ++ [l] := by
  rw [sinceHeader, List.reverse_concat, List.takeWhile_cons]
  cases l.kind.isThreadName with
  | true => rfl
  | false => exact List.reverse_cons

/-- The depth of braces after lexemes is their balance since the last header. -/
theorem foldl_stepDepth_eq (ls : List Lexeme) :
    ls.foldl stepDepth 0 = braceBalance (sinceHeader ls) := by
  induction ls using List.reverseRecOn with
  | nil => simp [sinceHeader, braceBalance]
  | append_singleton ls l ih =>
      rw [List.foldl_append, List.foldl_cons, List.foldl_nil, ih, stepDepth, sinceHeader_concat]
      by_cases hl : l.kind.isThreadName = true
      · rw [if_pos hl, if_pos hl]
        rfl
      · rw [if_neg hl, if_neg hl, braceBalance, braceBalance, List.foldl_append, List.foldl_cons,
          List.foldl_nil]

/-! ## The state before a row -/

namespace Scan

/-- Whether a thread is open after pieces can be told from their lexemes. -/
theorem State.noteAll_threadOpen (s : State) (line column : Nat) (ps : List Piece) :
    (s.noteAll ps).threadOpen = (Piece.layOut line column ps).foldl stepOpen s.threadOpen := by
  induction ps generalizing s column with
  | nil => rfl
  | cons p ps ih =>
      cases p with
      | gap t => exact ih s (column + t.length)
      | lexeme k t =>
          have hstep : (s.note (.lexeme k t)).threadOpen
              = stepOpen s.threadOpen ⟨line, column, k, t⟩ := by
            cases k <;> rfl
          rw [State.noteAll_cons, ih, Piece.layOut, List.foldl_cons, hstep]

/-- An operator lexeme counts for the depth as its text does. -/
theorem countBrace_operator (depth line column : Nat) (t : Text) :
    countBrace depth ⟨line, column, .operator, t⟩ = depthAfter t depth := by
  simp [countBrace, depthAfter, Lexeme.isOperator]

/-- The depth of braces after pieces can be told from their lexemes. -/
theorem State.noteAll_depth (s : State) (line column : Nat) (ps : List Piece) :
    (s.noteAll ps).depth = (Piece.layOut line column ps).foldl stepDepth s.depth := by
  induction ps generalizing s column with
  | nil => rfl
  | cons p ps ih =>
      cases p with
      | gap t => exact ih s (column + t.length)
      | lexeme k t =>
          have hstep : (s.note (.lexeme k t)).depth = stepDepth s.depth ⟨line, column, k, t⟩ := by
            cases k with
            | operator => exact (countBrace_operator s.depth line column t).symm
            | _ => simp [State.note, stepDepth, countBrace, Lexeme.isOperator, Kind.isThreadName]
          rw [State.noteAll_cons, ih, Piece.layOut, List.foldl_cons, hstep]

/-- The end of a row says nothing about threads and depth. -/
theorem State.afterRow_extent (s : State) (ps : List Piece) :
    (s.afterRow ps).threadOpen = s.threadOpen ∧ (s.afterRow ps).depth = s.depth := by
  unfold State.afterRow
  dsimp only
  split
  · exact ⟨rfl, rfl⟩
  · exact ⟨rfl, rfl⟩

/-- Whether a thread is open before a row, and how deep its braces are, folds over the lexemes of
    the rows before. -/
theorem State.afterRows_extent (s : State) (line : Nat) (rs : List Text) :
    (s.afterRows rs).threadOpen = (Scan.ofRows s line rs).lexemes.foldl stepOpen s.threadOpen
      ∧ (s.afterRows rs).depth = (Scan.ofRows s line rs).lexemes.foldl stepDepth s.depth := by
  induction rs generalizing s line with
  | nil => exact ⟨rfl, rfl⟩
  | cons row rs ih =>
      obtain ⟨hopen, hdepth⟩ := State.afterRow_extent (cutRow s row).state (cutRow s row).pieces
      have hopen' : (cutRow s row).state.threadOpen
          = (Piece.layOut line 0 (cutRow s row).pieces).foldl stepOpen s.threadOpen := by
        rw [cutRow_noted]
        exact State.noteAll_threadOpen s line 0 _
      have hdepth' : (cutRow s row).state.depth
          = (Piece.layOut line 0 (cutRow s row).pieces).foldl stepDepth s.depth := by
        rw [cutRow_noted]
        exact State.noteAll_depth s line 0 _
      rw [Scan.ofRows, List.foldl_append, List.foldl_append, ← hopen', ← hdepth', ← hopen, ← hdepth]
      exact ih _ (line + 1)

/-- The lexemes of rows and of further rows. -/
theorem lexemes_ofRows_append (s : State) (line : Nat) (rs rs' : List Text) :
    (Scan.ofRows s line (rs ++ rs')).lexemes = (Scan.ofRows s line rs).lexemes
      ++ (Scan.ofRows (s.afterRows rs) (line + rs.length) rs').lexemes := by
  induction rs generalizing s line with
  | nil => rfl
  | cons row rs ih =>
      rw [List.cons_append, Scan.ofRows, ih, ← List.append_assoc, List.length_cons,
        Nat.add_right_comm]
      rfl

theorem lines_ofRows_append (s : State) (line : Nat) (rs rs' : List Text) :
    (Scan.ofRows s line (rs ++ rs')).lines = (Scan.ofRows s line rs).lines
      ++ (Scan.ofRows (s.afterRows rs) (line + rs.length) rs').lines := by
  induction rs generalizing s line with
  | nil => rfl
  | cons row rs ih =>
      rw [List.cons_append, Scan.ofRows, ih, List.length_cons, Nat.add_right_comm]
      rfl

/-- Every row has its line. -/
theorem length_lines_ofRows (s : State) (line : Nat) (rs : List Text) :
    (Scan.ofRows s line rs).lines.length = rs.length := by
  induction rs generalizing s line with
  | nil => rfl
  | cons row rs ih => exact congrArg (· + 1) (ih _ _)

/-- A row inherits what the rows before it leave. -/
theorem getElem?_lines_ofRows (s : State) (line : Nat) (rs : List Text) (i : Nat) :
    (Scan.ofRows s line rs).lines[i]? = rs[i]?.map fun _ => (s.afterRows (rs.take i)).info := by
  induction rs generalizing s line i with
  | nil => rfl
  | cons row rs ih =>
      cases i with
      | zero => rfl
      | succ i => exact ih _ _ i

/-- The lexemes of earlier rows are those on lines with a smaller number. -/
theorem lexemes_ofRows_take (s : State) (rs : List Text) {i : Nat} (hi : i ≤ rs.length) :
    (Scan.ofRows s 0 (rs.take i)).lexemes
      = (Scan.ofRows s 0 rs).lexemes.filter (·.line < i) := by
  have hsplit := lexemes_ofRows_append s 0 (rs.take i) (rs.drop i)
  rw [List.take_append_drop] at hsplit
  rw [hsplit, List.filter_append]
  have hearlier : ∀ l ∈ (Scan.ofRows s 0 (rs.take i)).lexemes, decide (l.line < i) = true := by
    intro l hl
    obtain ⟨j, row, hrow, hl⟩ := mem_lexemes_ofRows.mp hl
    obtain ⟨before, k, t, after, -, rfl⟩ := Piece.mem_layOut.mp hl
    obtain ⟨hj, -⟩ := List.getElem?_eq_some_iff.mp hrow
    rw [List.length_take] at hj
    simp only [decide_eq_true_eq]
    omega
  have hlater : ∀ l ∈ (Scan.ofRows (s.afterRows (rs.take i)) (0 + (rs.take i).length)
      (rs.drop i)).lexemes, ¬ decide (l.line < i) = true := by
    intro l hl
    obtain ⟨j, row, -, hl⟩ := mem_lexemes_ofRows.mp hl
    obtain ⟨before, k, t, after, -, rfl⟩ := Piece.mem_layOut.mp hl
    rw [List.length_take]
    simp only [decide_eq_true_eq]
    omega
  rw [List.filter_eq_self.mpr hearlier, List.filter_eq_nil_iff.mpr hlater, List.append_nil]

/-- The lexemes of the rows from `k` on are those on lines from `k` on. -/
theorem lexemes_ofRows_drop (s : State) (rs : List Text) {k : Nat} (hk : k ≤ rs.length) :
    (Scan.ofRows (s.afterRows (rs.take k)) k (rs.drop k)).lexemes
      = (Scan.ofRows s 0 rs).lexemes.filter (k ≤ ·.line) := by
  have hsplit := lexemes_ofRows_append s 0 (rs.take k) (rs.drop k)
  rw [List.take_append_drop, List.length_take_of_le hk, Nat.zero_add] at hsplit
  rw [hsplit, List.filter_append]
  have hearlier : ∀ l ∈ (Scan.ofRows s 0 (rs.take k)).lexemes, ¬ decide (k ≤ l.line) = true := by
    intro l hl
    rw [lexemes_ofRows_take s rs hk, List.mem_filter] at hl
    simpa using hl.2
  have hlater : ∀ l ∈ (Scan.ofRows (s.afterRows (rs.take k)) k (rs.drop k)).lexemes,
      decide (k ≤ l.line) = true := by
    intro l hl
    obtain ⟨i, row, -, hl⟩ := mem_lexemes_ofRows.mp hl
    rw [Piece.line_of_mem_layOut hl]
    exact decide_eq_true (Nat.le_add_right k i)
  rw [List.filter_eq_nil_iff.mpr hearlier, List.filter_eq_self.mpr hlater, List.nil_append]

end Scan

/-! ## The place of a lexeme -/

/-- Pieces are laid out from where the pieces before them end. -/
theorem Piece.layOut_append (line column : Nat) (ps qs : List Piece) :
    layOut line column (ps ++ qs) = layOut line column ps
      ++ layOut line (column + width ps) qs := by
  induction ps generalizing column with
  | nil => rfl
  | cons p ps ih =>
      cases p with
      | gap t =>
          rw [List.cons_append, layOut, layOut, ih, width, ← Nat.add_assoc]
          rfl
      | lexeme k t =>
          rw [List.cons_append, layOut, layOut, ih, width, ← Nat.add_assoc, List.cons_append]
          rfl

/-- No lexeme of a text is listed twice. -/
theorem scan_lexemes_nodup (t : Text) : (scan t).lexemes.Nodup := by
  refine (scan_lexemes_ordered t).imp ?_
  rintro a b h rfl
  rcases h with h | ⟨-, h⟩
  · omega
  · omega

/-- What stands before a lexeme: the lexemes of earlier rows, and in its own row those of the pieces
    before it. -/
theorem split_at_lexeme {t : Text} {before after : List Lexeme} {l : Lexeme}
    (h : (scan t).lexemes = before ++ l :: after) :
    ∃ row ps qs, (rows t)[l.line]? = some row
      ∧ (Scan.cutRow (Scan.State.initial.afterRows ((rows t).take l.line)) row).pieces
          = ps ++ .lexeme l.kind l.text :: qs
      ∧ before = (Scan.ofRows .initial 0 ((rows t).take l.line)).lexemes
          ++ Piece.layOut l.line 0 ps := by
  have hmem : l ∈ (scan t).lexemes := by
    rw [h]
    exact List.mem_append_right _ List.mem_cons_self
  obtain ⟨i, row, hrow, hl⟩ := Scan.mem_lexemes_ofRows.mp hmem
  obtain ⟨ps, k, u, qs, hpieces, hplace⟩ := Piece.mem_layOut.mp hl
  rw [Nat.zero_add] at hplace
  subst hplace
  refine ⟨row, ps, qs, hrow, hpieces, ?_⟩
  -- the lexemes of the text, put together again around the piece
  obtain ⟨hi, hget⟩ := List.getElem?_eq_some_iff.mp hrow
  have hrows : rows t = (rows t).take i ++ row :: (rows t).drop (i + 1) := by
    rw [← hget, List.getElem_cons_drop, List.take_append_drop]
  have hlexemes := Scan.lexemes_ofRows_append .initial 0 ((rows t).take i)
    (row :: (rows t).drop (i + 1))
  rw [← hrows, Scan.ofRows, List.length_take, Nat.min_eq_left (by omega), hpieces, Nat.zero_add,
    Piece.layOut_append, Piece.layOut, List.append_assoc, ← List.append_assoc, List.cons_append]
    at hlexemes
  -- no lexeme stands twice, so there is one way to split at this one
  have hnodup := scan_lexemes_nodup t
  rw [h, List.nodup_append, List.nodup_cons] at hnodup
  obtain ⟨-, ⟨hafter, -⟩, hbefore⟩ := hnodup
  have hbefore' : (⟨i, 0 + Piece.width ps, k, u⟩ : Lexeme) ∉ before :=
    fun hin => hbefore _ hin _ List.mem_cons_self rfl
  rw [← scan, h] at hlexemes
  exact ((List.append_cons_inj_of_notMem hbefore' hafter).mp hlexemes).1

/-- The lexemes of pieces are all comments when none of the pieces is significant. -/
theorem forall_layOut_comment_iff (line : Nat) {ps : List Piece} :
    (∀ m ∈ Piece.layOut line 0 ps, m.kind = .comment) ↔ ps.any Piece.isSignificant = false := by
  rw [List.any_eq_false]
  constructor
  · intro h p hp hsig
    cases p with
    | gap t => exact nomatch hsig
    | lexeme k t =>
        obtain ⟨before, after, rfl⟩ := List.append_of_mem hp
        have hk : k = .comment := h _ (Piece.mem_layOut.mpr ⟨before, k, t, after, rfl, rfl⟩)
        rw [hk] at hsig
        exact nomatch hsig
  · intro h m hm
    obtain ⟨before, k, t, after, rfl, rfl⟩ := Piece.mem_layOut.mp hm
    have hk := h (.lexeme k t) (List.mem_append_right _ List.mem_cons_self)
    simpa [Piece.isSignificant, Kind.isSignificant] using hk

/-- The lexemes on the line of a lexeme that stand before it are comments exactly when none of the
    pieces before it in its row is significant. -/
theorem first_on_line_iff {t : Text} {before : List Lexeme} {line : Nat} {ps : List Piece}
    (hline : line ≤ (rows t).length)
    (hbefore : before = (Scan.ofRows .initial 0 ((rows t).take line)).lexemes
      ++ Piece.layOut line 0 ps) :
    (∀ m ∈ before, m.line = line → m.kind = .comment) ↔ ps.any Piece.isSignificant = false := by
  rw [← forall_layOut_comment_iff line, hbefore]
  constructor
  · intro h m hm
    refine h m (List.mem_append_right _ hm) ?_
    obtain ⟨before', k, u, after, -, rfl⟩ := Piece.mem_layOut.mp hm
    rfl
  · intro h m hm hmline
    rcases List.mem_append.mp hm with hm | hm
    · -- earlier rows have smaller numbers
      rw [Scan.lexemes_ofRows_take .initial (rows t) hline, List.mem_filter] at hm
      have := of_decide_eq_true hm.2
      omega
    · exact h m hm

/-- Comments do not bound threads, so what stands before the first significant lexeme of a row
    changes nothing. -/
theorem filter_boundsThread_eq {before earlier : List Lexeme} {line : Nat} {ps : List Piece}
    (hfirst : ps.any Piece.isSignificant = false)
    (hbefore : before = earlier ++ Piece.layOut line 0 ps) :
    before.filter (·.kind.boundsThread) = earlier.filter (·.kind.boundsThread) := by
  have hnone : (Piece.layOut line 0 ps).filter (·.kind.boundsThread) = [] := by
    rw [List.filter_eq_nil_iff]
    intro m hm
    rw [(forall_layOut_comment_iff line).mpr hfirst m hm]
    exact Bool.false_ne_true
  rw [hbefore, List.filter_append, hnone, List.append_nil]

/-- A lexeme is a keyword when its piece is. -/
theorem Lexeme.isKeyword_piece (l : Lexeme) (word : String) :
    Piece.isKeyword word (.lexeme l.kind l.text) = l.isKeyword word := by
  unfold Lexeme.isKeyword
  cases l.kind <;> rfl

/-- **THREAD EXTENT**: an `end` closes the thread exactly when it is the first lexeme of its line
    but for comments, its line starts a statement at depth zero that is not the body of a control
    header, and the last header or closing `end` before it is a header.  The depth that a line
    starts at is the balance of braces on earlier lines since the last header there. -/
theorem threadEnd_iff_and_depth (t : Text) :
    (∀ before l after, (scan t).lexemes = before ++ l :: after → l.isKeyword "end" = true →
      (l.kind = .threadEnd ↔
        (∀ m ∈ before, m.line = l.line → m.kind = .comment)
        ∧ (∃ info, (scan t).lines[l.line]? = some info ∧ info.continued = false
            ∧ info.bracelessBody = false ∧ info.depth = 0)
        ∧ ∃ m role, (before.filter (·.kind.boundsThread)).getLast? = some m
            ∧ m.kind = .threadName role))
    ∧ (scan t).lines.length = (rows t).length
    ∧ ∀ line info, (scan t).lines[line]? = some info →
        info.depth = braceBalance (sinceHeader ((scan t).lexemes.filter (·.line < line))) := by
  have hinfo : ∀ line : Nat, (scan t).lines[line]? = (rows t)[line]?.map fun _ =>
      (Scan.State.initial.afterRows ((rows t).take line)).info :=
    Scan.getElem?_lines_ofRows .initial 0 (rows t)
  refine ⟨?_, ?_, ?_⟩
  · intro before l after h hend
    obtain ⟨row, ps, qs, hrow, hpieces, hbefore⟩ := split_at_lexeme h
    have hline : l.line ≤ (rows t).length :=
      Nat.le_of_lt (List.getElem?_eq_some_iff.mp hrow).1
    rw [← Lexeme.isKeyword_piece] at hend
    have hkind : l.kind = .threadEnd
        ↔ ∃ u, Piece.lexeme l.kind l.text = .lexeme .threadEnd u := by
      simp
    rw [hkind, Scan.cutRow_decided _ row hpieces hend, first_on_line_iff hline hbefore, hinfo, hrow]
    refine and_congr_right fun hfirst => ?_
    have hopen := (Scan.State.afterRows_extent .initial 0 ((rows t).take l.line)).1
    -- as it is first on its line, the bounds before it are those of earlier rows
    rw [filter_boundsThread_eq hfirst hbefore, ← foldl_stepOpen_iff]
    constructor
    · rintro ⟨hcontinued, hpending, hdepth, hthread⟩
      refine ⟨⟨_, rfl, hcontinued, ?_, hdepth⟩, hopen.symm.trans hthread⟩
      show (!Scan.State.continued _ && Scan.State.bracelessPending _) = false
      rw [hpending, Bool.and_false]
    · rintro ⟨⟨info, hsome, hcontinued, hbody, hdepth⟩, hthread⟩
      rw [← Option.some.inj hsome] at hcontinued hbody hdepth
      refine ⟨hcontinued, ?_, hdepth, hopen.trans hthread⟩
      have hcontinued' : (Scan.State.initial.afterRows ((rows t).take l.line)).continued = false :=
        hcontinued
      simpa [Scan.State.info, hcontinued'] using hbody
  · exact Scan.length_lines_ofRows .initial 0 (rows t)
  · intro line info hline
    rw [hinfo] at hline
    obtain ⟨row, hrow, rfl⟩ := Option.map_eq_some_iff.mp hline
    have hle : line ≤ (rows t).length := Nat.le_of_lt (List.getElem?_eq_some_iff.mp hrow).1
    rw [scan, ← Scan.lexemes_ofRows_take .initial (rows t) hle, ← foldl_stepDepth_eq]
    exact (Scan.State.afterRows_extent .initial 0 ((rows t).take line)).2

/-- Of the two words `end` here, the one inside the braces does not close the thread; the one after
    them does. -/
theorem threadEnd_after_braces :
    let t : Text := "a:\n\x7b\nend\n\x7d\nend".toList
    let before : List Lexeme := [⟨0, 0, .threadName .plain, ['a']⟩, ⟨0, 1, .operator, [':']⟩,
      ⟨1, 0, .operator, ['\x7b']⟩, ⟨2, 0, .keyword, "end".toList⟩, ⟨3, 0, .operator, ['\x7d']⟩]
    let l : Lexeme := ⟨4, 0, .threadEnd, "end".toList⟩
    (scan t).lexemes = before ++ [l] ∧ l.isKeyword "end" = true
      ∧ (∀ m ∈ before, m.line = 4 → m.kind = .comment)
      ∧ (∃ info, (scan t).lines[4]? = some info ∧ info.continued = false
          ∧ info.bracelessBody = false ∧ info.depth = 0)
      ∧ ∃ m role, (before.filter (·.kind.boundsThread)).getLast? = some m
          ∧ m.kind = .threadName role := by
  intro t before l
  have hscan : (scan t).lexemes = before ++ [l] := by decide +kernel
  have hend : l.isKeyword "end" = true := by decide +kernel
  have hcloses := ((threadEnd_iff_and_depth t).1 before l [] hscan hend).mp rfl
  exact ⟨hscan, hend, hcloses⟩

end ScriptAtlas
