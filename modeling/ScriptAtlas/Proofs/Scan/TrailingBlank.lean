import ScriptAtlas.Proofs.Scan.Comparison
import ScriptAtlas.Proofs.Scan.Pieces

/-! # Trailing blank — shapes and headers do not see a blank behind the text

    A blank at the end of a text takes no part in any written form but an open
    string: words, numbers, paths, operators and comments reach exactly as far
    as without it, and so do the tests that look further ahead.  The one
    exception is a string that nothing closes (`closes`), which takes the blank
    in.

    In a header the blank lengthens the last run or stands by itself
    (`Longer`).  Every step of reading a header then leaves longer runs, or on
    both sides none at all, where no colon can close it (`Ahead`). -/

namespace ScriptAtlas

open Vocabulary Text

variable {b : Char}

/-! ## Blanks -/

/-- A test that no blank passes. -/
def FailsOnBlanks (p : Char → Bool) : Prop := ∀ c, isBlank c = true → p c = false

/-- No blank stands in an identifier. -/
theorem isIdentifierChar_failsOnBlanks : FailsOnBlanks isIdentifierChar := by
  intro c hc
  refine Bool.eq_false_iff.mpr fun h => ?_
  rw [isBlank_of_isIdentifierChar h] at hc
  exact Bool.noConfusion hc

/-- A blank is none of the other signs. -/
theorem ne_of_isBlank {x : Char} (hx : isBlank x = false) (hb : isBlank b = true) : b ≠ x := by
  rintro rfl
  exact Bool.noConfusion (hb.symm.trans hx)

theorem beq_of_isBlank {x : Char} (hx : isBlank x = false) (hb : isBlank b = true) :
    (b == x) = false :=
  beq_eq_false_iff_ne.mpr (ne_of_isBlank hx hb)

/-- No blank starts an identifier. -/
theorem isIdentifierStart_failsOnBlanks : FailsOnBlanks isIdentifierStart := by
  intro c hc
  refine Bool.eq_false_iff.mpr fun h => ?_
  have hchar := isIdentifierChar_of_isIdentifierStart h
  rw [isIdentifierChar_failsOnBlanks c hc] at hchar
  exact Bool.noConfusion hchar

/-- No blank is a digit. -/
theorem isDigit_failsOnBlanks : FailsOnBlanks Char.isDigit := by
  intro c hc
  have hchar := isIdentifierChar_failsOnBlanks c hc
  simp only [isIdentifierChar, Char.isAlphanum, Bool.or_eq_false_iff] at hchar
  exact hchar.1.2

/-- No blank stands in a path. -/
theorem isPathChar_failsOnBlanks : FailsOnBlanks isPathChar := by
  intro c hc
  rw [isPathChar, isIdentifierChar_failsOnBlanks c hc, beq_of_isBlank (by decide) hc,
    beq_of_isBlank (by decide) hc, beq_of_isBlank (by decide) hc, beq_of_isBlank (by decide) hc]
  rfl

/-! ## Texts with a blank at the end -/

/-- A run stops before a character that does not pass. -/
theorem takeWhile_append_of_false {p : Char → Bool} (hp : p b = false) (t : Text) :
    (t ++ [b]).takeWhile p = t.takeWhile p := by
  rw [List.takeWhile_append]
  split
  · rename_i h
    rw [(List.takeWhile_prefix p).eq_of_length h, List.takeWhile_cons_of_neg (by simp [hp]),
      List.append_nil]
  · rfl

/-- The first character passes if there was one that did. -/
theorem any_head?_append {p : Char → Bool} (hp : p b = false) (t : Text) :
    (t ++ [b]).head?.any p = t.head?.any p := by
  cases t with
  | nil => exact hp
  | cons a t => rfl

/-- The first character differs from another sign as before. -/
theorem head?_append_bne {x : Char} (hx : b ≠ x) (t : Text) :
    ((t ++ [b]).head? != some x) = (t.head? != some x) := by
  cases t with
  | nil => exact bne_iff_ne.mpr fun h => hx (Option.some.inj h)
  | cons a t => rfl

/-- What a text starts with does not reach into the blank. -/
theorem isPrefixOf_append_of_notMem {v : Text} (hv : b ∉ v) (t : Text) :
    v.isPrefixOf (t ++ [b]) = v.isPrefixOf t := by
  induction t generalizing v with
  | nil =>
      cases v with
      | nil => rfl
      | cons x v =>
          have hx : (x == b) = false := beq_eq_false_iff_ne.mpr fun h => hv (h ▸ List.mem_cons_self)
          show (x == b && _) = false
          rw [hx, Bool.false_and]
  | cons a t ih =>
      cases v with
      | nil => rfl
      | cons x v =>
          show (x == a && v.isPrefixOf (t ++ [b])) = (x == a && v.isPrefixOf t)
          rw [ih fun h => hv (List.mem_cons_of_mem _ h)]

/-- A blank at the end is trimmed. -/
theorem trimEnd_append (hb : isBlank b = true) (t : Text) : trimEnd (t ++ [b]) = trimEnd t := by
  rw [trimEnd, dropEndWhile, List.reverse_append, List.reverse_singleton, List.singleton_append,
    List.dropWhile_cons_of_pos hb]
  rfl

/-- What is left behind the blanks at the start, if anything is, has the blank at its end. -/
theorem dropWhile_append_blank (hb : isBlank b = true) (t : Text) :
    (t ++ [b]).dropWhile isBlank
      = if (t.dropWhile isBlank).isEmpty then [] else t.dropWhile isBlank ++ [b] := by
  rw [List.dropWhile_append, List.dropWhile_cons_of_pos hb, List.dropWhile_nil]

namespace Shape

/-- A word ends before the blank. -/
theorem word_append (hb : isBlank b = true) (t : Text) : word (t ++ [b]) = word t :=
  takeWhile_append_of_false (isIdentifierChar_failsOnBlanks b hb) t

/-- A blank alone does not start an identifier. -/
theorem startsIdentifier_append (hb : isBlank b = true) (t : Text) :
    startsIdentifier (t ++ [b]) = startsIdentifier t :=
  any_head?_append (isIdentifierStart_failsOnBlanks b hb) t

/-- Behind a run, the rest has the blank at its end. -/
theorem drop_takeWhile_append (p : Char → Bool) (t : Text) :
    (t ++ [b]).drop (t.takeWhile p).length = t.drop (t.takeWhile p).length ++ [b] :=
  List.drop_append_of_le_length (List.takeWhile_prefix p).length_le

theorem drop_word_append (t : Text) :
    (t ++ [b]).drop (word t).length = t.drop (word t).length ++ [b] :=
  drop_takeWhile_append isIdentifierChar t

/-- A number ends before the blank, with or without a fraction. -/
theorem number_append (hb : isBlank b = true) (t : Text) : number (t ++ [b]) = number t := by
  have hdigit := isDigit_failsOnBlanks b hb
  rw [number, number, takeWhile_append_of_false hdigit, drop_takeWhile_append]
  -- a point at the very end gets a blank behind it, which is no digit either
  rcases t.drop (t.takeWhile Char.isDigit).length with _ | ⟨a, _ | ⟨d, rest⟩⟩
  · simp
  · by_cases ha : a = '.'
    · subst ha
      simp [hdigit]
    · simp [ha]
  · by_cases ha : a = '.'
    · subst ha
      simp only [List.cons_append]
      rw [← List.cons_append, takeWhile_append_of_false hdigit]
    · simp [ha]

/-- Whether a quoted string ends in its closing quote, given what stands after the opening one; a
    quote after a backslash does not close it. -/
def closes : Text → Bool
  | [] => false
  | '"' :: _ => true
  | '\\' :: _ :: rest => closes rest
  | _ :: rest => closes rest

/-- A string that closes ends at its quote, whatever follows. -/
theorem stringTail_of_closes {t : Text} (h : closes t = true) (u : Text) :
    stringTail (t ++ u) = stringTail t ∧ closes (stringTail t) = true := by
  fun_induction closes t with
  | case1 => exact Bool.noConfusion h
  | case2 rest => exact ⟨rfl, rfl⟩
  | case3 c rest ih =>
      obtain ⟨hstring, hcloses⟩ := ih h
      exact ⟨congrArg (['\\', c] ++ ·) hstring, hcloses⟩
  | case4 c rest hquote hescape ih =>
      obtain ⟨hstring, hcloses⟩ := ih h
      have hescape' : ∀ d rest', c = '\\' → rest ++ u = d :: rest' → False := by
        rintro d rest' rfl hcons
        cases rest with
        | nil => exact Bool.noConfusion h
        | cons e rest => exact hescape e rest rfl rfl
      have htail : ∀ d rest', c = '\\' → stringTail rest = d :: rest' → False := by
        rintro d rest' rfl hcons
        cases rest with
        | nil => exact Bool.noConfusion h
        | cons e rest => exact hescape e rest rfl rfl
      rw [List.cons_append, stringTail.eq_4 c _ hquote hescape', hstring,
        stringTail.eq_4 c rest hquote hescape, closes.eq_4 c _ hquote htail]
      exact ⟨rfl, hcloses⟩

/-- A string that does not close takes all the text. -/
theorem stringTail_of_not_closes {t : Text} (h : closes t = false) : stringTail t = t := by
  fun_induction closes t with
  | case1 => rfl
  | case2 rest => exact Bool.noConfusion h
  | case3 c rest ih => exact congrArg (['\\', c] ++ ·) (ih h)
  | case4 c rest hquote hescape ih =>
      rw [stringTail.eq_4 c rest hquote hescape, ih h]

theorem closes_blank (hb : isBlank b = true) : closes [b] = false := by
  rw [closes.eq_4 b [] (ne_of_isBlank (by decide) hb) fun _ _ _ => nofun]
  rfl

/-- A blank closes no string. -/
theorem closes_append (hb : isBlank b = true) {t : Text} (h : closes t = false) :
    closes (t ++ [b]) = false := by
  fun_induction closes t with
  | case1 => exact closes_blank hb
  | case2 rest => exact Bool.noConfusion h
  | case3 c rest ih => exact ih h
  | case4 c rest hquote hescape ih =>
      cases rest with
      | nil =>
          -- a backslash at the end now escapes the blank
          by_cases hc : c = '\\'
          · subst hc
            rfl
          · rw [List.cons_append, closes.eq_4 c _ hquote fun _ _ h _ => hc h]
            exact closes_blank hb
      | cons d rest =>
          rw [List.cons_append, closes.eq_4 c _ hquote fun _ _ hc _ => hescape d rest hc rfl]
          exact ih h

/-- A blank closes no comment. -/
theorem throughClose_append (hb : isBlank b = true) (t : Text) :
    throughClose (t ++ [b]) = throughClose t := by
  fun_induction throughClose t with
  | case1 =>
      rw [List.nil_append, throughClose.eq_3 b [] fun _ _ => nofun]
      rfl
  | case2 rest => rfl
  | case3 c rest hclose ih =>
      have hclose' : ∀ rest', c = '*' → rest ++ [b] = '/' :: rest' → False := by
        intro rest' hc hcons
        cases rest with
        | nil => exact ne_of_isBlank (by decide) hb (List.cons.inj hcons).1
        | cons d rest =>
            obtain ⟨rfl, -⟩ := List.cons.inj hcons
            exact hclose rest hc rfl
      rw [List.cons_append, throughClose.eq_3 c _ hclose', ih]

/-- A path ends before the blank, and two colons behind it are none. -/
theorem path?_append (hb : isBlank b = true) (expected : Bool) (t : Text) :
    path? expected (t ++ [b]) = path? expected t := by
  have hstart : (isIdentifierStart b || b == '.') = false := by
    rw [isIdentifierStart_failsOnBlanks b hb, beq_of_isBlank (by decide) hb]
    rfl
  have hcolons : b ∉ "::".toList := by
    intro h
    exact ne_of_isBlank (by decide) hb (List.mem_replicate (n := 2) |>.mp h).2
  unfold path?
  simp only [takeWhile_append_of_false (isPathChar_failsOnBlanks b hb), drop_takeWhile_append,
    any_head?_append (p := fun c => isIdentifierStart c || c == '.') hstart,
    isPrefixOf_append_of_notMem hcolons]

/-- Operators of two characters, none of them a blank. -/
def ArePairs (ops : List Text) : Prop := ∀ op ∈ ops, op.length = 2 ∧ op.any isBlank = false

theorem ArePairs.contains_single {ops : List Text} (h : ArePairs ops) (a : Char) :
    ops.contains [a] = false := by
  refine Bool.eq_false_iff.mpr fun hmem => ?_
  exact absurd (h _ (List.contains_iff_mem.mp hmem)).1 (by simp)

/-- So a character with a blank behind it is none of them. -/
theorem ArePairs.contains_blank {ops : List Text} (h : ArePairs ops) (hb : isBlank b = true)
    (a : Char) : ops.contains [a, b] = false := by
  refine Bool.eq_false_iff.mpr fun hmem => ?_
  have hblank := List.any_eq_false.mp (h _ (List.contains_iff_mem.mp hmem)).2 b (by simp)
  exact hblank hb

theorem arePairs_wideOperators : ArePairs wideOperators := by
  unfold ArePairs
  decide

theorem arePairs_writeOperators : ArePairs writeOperators := by
  unfold ArePairs
  decide

/-- An operator ends before the blank. -/
theorem operator?_append (hb : isBlank b = true) (a : Char) (rest : Text) :
    operator? (a :: rest ++ [b]) = operator? (a :: rest) := by
  cases rest with
  | nil =>
      show (if wideOperators.contains [a, b] then some [a, b] else _)
        = if wideOperators.contains [a] then some [a] else _
      rw [arePairs_wideOperators.contains_blank hb, arePairs_wideOperators.contains_single]
      rfl
  | cons d rest => rfl

/-- A blank behind a name is skipped, so what is assigned does not change. -/
theorem assignsAfter_append (hb : isBlank b = true) (depth : Nat) (t : Text) :
    assignsAfter depth (t ++ [b]) = assignsAfter depth t := by
  induction t generalizing depth with
  | nil =>
      cases depth with
      | zero => simp [assignsAfter, hb]
      | succ depth => simp [assignsAfter]
  | cons c rest ih =>
      have hwrite : writeOperators.contains (c :: (rest ++ [b]).take 1)
          = writeOperators.contains (c :: rest.take 1) := by
        cases rest with
        | nil =>
            exact (arePairs_writeOperators.contains_blank hb c).trans
              (arePairs_writeOperators.contains_single c).symm
        | cons d rest => rfl
      cases depth with
      | zero =>
          rw [List.cons_append, assignsAfter, assignsAfter, ih, ih, hwrite,
            head?_append_bne (ne_of_isBlank (by decide) hb)]
      | succ depth => rw [List.cons_append, assignsAfter, assignsAfter, ih, ih, ih]

/-- Nothing but blanks is still nothing, and a comment starts with two signs. -/
theorem isTrailer_append (hb : isBlank b = true) (t : Text) :
    isTrailer (t ++ [b]) = isTrailer t := by
  unfold isTrailer
  rw [dropWhile_append_blank hb]
  -- one slash at the end gets a blank behind it, which starts no comment
  rcases t.dropWhile isBlank with _ | ⟨a, _ | ⟨d, rest⟩⟩
  · rfl
  · by_cases ha : a = '/'
    · subst ha
      show (b == '/' || b == '*') = false
      rw [beq_of_isBlank (by decide) hb, beq_of_isBlank (by decide) hb]
      rfl
    · simp [ha]
  · by_cases ha : a = '/'
    · subst ha
      rfl
    · simp [ha]

/-- A colon closes what it closed. -/
theorem isClosingColon_append (hb : isBlank b = true) (t : Text) :
    isClosingColon (t ++ [b]) = isClosingColon t := by
  unfold isClosingColon
  cases t with
  | nil =>
      have hcolon : b ≠ ':' := ne_of_isBlank (by decide) hb
      simp [hcolon]
  | cons a rest =>
      by_cases ha : a = ':'
      · subst ha
        simp only [List.cons_append]
        rw [head?_append_bne (ne_of_isBlank (by decide) hb), isTrailer_append hb]
      · simp [ha]

/-- What follows the blanks at the start. -/
theorem drop_blanks (t : Text) : t.drop (blanks t).length = t.dropWhile isBlank := by
  have hsplit : t = blanks t ++ t.dropWhile isBlank := List.takeWhile_append_dropWhile.symm
  calc t.drop (blanks t).length
      = (blanks t ++ t.dropWhile isBlank).drop (blanks t).length := congrArg _ hsplit
    _ = t.dropWhile isBlank := List.drop_left

/-- The same behind blanks, where the blank may be one of them. -/
theorem isClosingColon_afterBlanks (hb : isBlank b = true) (t : Text) :
    isClosingColon ((t ++ [b]).drop (blanks (t ++ [b])).length)
      = isClosingColon (t.drop (blanks t).length) := by
  rw [drop_blanks, drop_blanks, dropWhile_append_blank hb]
  split
  · rename_i h
    rw [List.isEmpty_iff.mp h]
  · exact isClosingColon_append hb _

/-- A colon behind the blanks keeps them apart from the one at the end. -/
theorem blanks_append {t : Text} (h : isClosingColon (t.drop (blanks t).length) = true) :
    blanks (t ++ [b]) = blanks t := by
  rw [blanks, List.takeWhile_append, if_neg]
  · rfl
  · intro hlength
    rw [blanks, hlength, List.drop_length] at h
    exact Bool.noConfusion h

end Shape

/-! ## Headers -/

namespace Header

/-- The runs of a text with a blank at its end: the blank starts a new run, or makes the last one
    longer. -/
inductive Longer (b : Char) : List Text → List Text → Prop
  | new : Longer b [] [[b]]
  | last {r : Text} (hr : isBlankRun r = true) : Longer b [r] [r ++ [b]]
  | cons (r : Text) {rs rs' : List Text} (h : Longer b rs rs') : Longer b (r :: rs) (r :: rs')

/-- A run of blanks stays one. -/
theorem isBlankRun_append {r : Text} (hr : isBlankRun r = true) : isBlankRun (r ++ [b]) = true := by
  cases r with
  | nil => exact Bool.noConfusion hr
  | cons a r => exact hr

/-- It does not start an identifier. -/
theorem startsIdentifier_of_isBlankRun {r : Text} (hr : isBlankRun r = true) :
    Shape.startsIdentifier r = false := by
  cases r with
  | nil => rfl
  | cons a r => exact isIdentifierStart_failsOnBlanks a hr

/-- Longer runs make up the text with the blank at its end. -/
theorem Longer.flatten {rs rs' : List Text} (h : Longer b rs rs') :
    rs'.flatten = rs.flatten ++ [b] := by
  induction h with
  | new => rfl
  | last _ => simp
  | cons r _ ih => rw [List.flatten_cons, List.flatten_cons, ih, List.append_assoc]

/-- A blank belongs in one run with blanks. -/
theorem sameRun_blank (hb : isBlank b = true) (c : Char) : sameRun c b = isBlank c := by
  rw [sameRun, isIdentifierChar_failsOnBlanks b hb, hb, Bool.and_false, Bool.false_or,
    Bool.and_true]

/-- The runs of a text with a blank at its end are longer. -/
theorem runs_append (hb : isBlank b = true) (t : Text) : Longer b (runs t) (runs (t ++ [b])) := by
  induction t with
  | nil => exact .new
  | cons c cs ih =>
      rw [List.cons_append, runs, runs]
      generalize runs cs = rs at ih
      generalize runs (cs ++ [b]) = rs' at ih
      -- `c` joins the first run or starts one; only a run of blanks has the blank in it
      cases ih with
      | new =>
          dsimp only
          rw [sameRun_blank hb]
          split
          · rename_i hc
            exact .last (r := [c]) hc
          · exact .cons [c] .new
      | @last r hr =>
          cases r with
          | nil => exact Bool.noConfusion hr
          | cons d ds =>
              dsimp only [List.cons_append]
              rw [sameRun_blank (b := d) hr]
              split
              · rename_i hc
                exact .last (r := c :: d :: ds) hc
              · exact .cons [c] (.last hr)
      | cons r h =>
          cases r with
          | nil => exact .cons [c] (.cons [] h)
          | cons d ds =>
              dsimp only
              split
              · exact .cons (c :: d :: ds) h
              · exact .cons [c] (.cons (d :: ds) h)

/-- What two readings leave: the same result and longer runs, or no runs at all. -/
inductive Ahead (b : Char) {α : Type} : α × List Text → α × List Text → Prop
  | longer (x : α) {rs rs' : List Text} (h : Longer b rs rs') : Ahead b (x, rs) (x, rs')
  | nothing (x y : α) : Ahead b (x, []) (y, [])

/-- Skipping blanks leaves longer runs, or takes the last of them on both sides. -/
theorem skipBlanks_ahead (hb : isBlank b = true) {rs rs' : List Text} (h : Longer b rs rs') :
    Ahead b (skipBlanks rs) (skipBlanks rs') := by
  cases h with
  | new =>
      rw [skipBlanks, skipBlanks, if_pos (show isBlankRun [b] = true from hb)]
      exact .nothing _ _
  | last hr =>
      rw [skipBlanks, skipBlanks, if_pos hr, if_pos (isBlankRun_append hr)]
      exact .nothing _ _
  | cons r h =>
      rw [skipBlanks, skipBlanks]
      split
      · exact .longer r h
      · exact .longer [] (h.cons r)

/-- Only an opening parenthesis is taken. -/
theorem openParen_of_ne {r : Text} {rs : List Text} (h : r ≠ ['(']) :
    openParen (r :: rs) = ([], r :: rs) := by
  unfold openParen
  split
  · rename_i heq
    exact absurd (List.cons.inj heq).1 h
  · rfl

theorem openParen_of_isBlankRun {r : Text} {rs : List Text} (hr : isBlankRun r = true) :
    openParen (r :: rs) = ([], r :: rs) := by
  refine openParen_of_ne ?_
  rintro rfl
  exact absurd hr (by decide)

/-- An opening parenthesis is there or not, and longer runs follow. -/
theorem openParen_longer (hb : isBlank b = true) {rs rs' : List Text} (h : Longer b rs rs') :
    (openParen rs').1 = (openParen rs).1 ∧ Longer b (openParen rs).2 (openParen rs').2 := by
  cases h with
  | new =>
      rw [openParen_of_isBlankRun (show isBlankRun [b] = true from hb)]
      exact ⟨rfl, .new⟩
  | last hr =>
      rw [openParen_of_isBlankRun hr, openParen_of_isBlankRun (isBlankRun_append hr)]
      exact ⟨rfl, .last hr⟩
  | cons r h =>
      by_cases hr : r = ['(']
      · subst hr
        exact ⟨rfl, h⟩
      · rw [openParen_of_ne hr, openParen_of_ne hr]
        exact ⟨rfl, .cons r h⟩

/-- What was read before is the same on both sides. -/
theorem rel_map_ahead {out out' : Option (List Piece × List Text)} (ps : List Piece)
    (h : Option.Rel (Ahead b) out out') :
    Option.Rel (Ahead b) (out.map fun o => (ps ++ o.1, o.2))
      (out'.map fun o => (ps ++ o.1, o.2)) := by
  cases h with
  | none => exact .none
  | some h =>
      cases h with
      | longer _ h => exact .some (.longer _ h)
      | nothing _ _ => exact .some (.nothing _ _)

/-- A blank run among parameters is passed over. -/
theorem parameters_of_isBlankRun {r : Text} (hr : isBlankRun r = true) (parenthesized : Bool)
    (rs : List Text) :
    parameters parenthesized (r :: rs)
      = (parameters parenthesized rs).map fun o => (.gap r :: o.1, o.2) := by
  rw [parameters.eq_def]
  exact if_pos hr

/-- The parameters are read alike, unless both readings take all that is there. -/
theorem parameters_ahead (hb : isBlank b = true) (parenthesized : Bool) {rs rs' : List Text}
    (h : Longer b rs rs') :
    Option.Rel (Ahead b) (parameters parenthesized rs) (parameters parenthesized rs') := by
  induction hlength : rs.length using Nat.strongRecOn generalizing rs rs' with
  | ind n ih =>
      cases h with
      | new =>
          rw [parameters_of_isBlankRun (show isBlankRun [b] = true from hb)]
          cases parenthesized with
          | true => exact .none
          | false => exact .some (.nothing _ _)
      | last hr =>
          rw [parameters_of_isBlankRun hr, parameters_of_isBlankRun (isBlankRun_append hr)]
          cases parenthesized with
          | true => exact .none
          | false => exact .some (.nothing _ _)
      | @cons r rs rs' h =>
          rw [List.length_cons] at hlength
          have hrest := ih rs.length (by omega) h rfl
          -- the tests look at the first run only, which both sides share
          rw [parameters.eq_def, parameters.eq_def parenthesized (r :: rs')]
          dsimp only
          split
          · exact rel_map_ahead [.gap r] hrest
          split
          · exact rel_map_ahead [.lexeme .operator r] hrest
          split
          · exact .some (.longer _ h)
          split
          · cases Scope.ofWord? r with
            | none => exact .none
            | some scope =>
                -- a scope needs a dot and a name, and the blank can stand for neither
                cases h with
                | new => exact .none
                | last _ => exact .none
                | cons dot h =>
                    cases h with
                    | new =>
                        dsimp only
                        rw [startsIdentifier_of_isBlankRun (show isBlankRun [b] = true from hb),
                          Bool.and_false]
                        exact .none
                    | last hr =>
                        dsimp only
                        rw [startsIdentifier_of_isBlankRun hr,
                          startsIdentifier_of_isBlankRun (isBlankRun_append hr), Bool.and_false]
                        exact .none
                    | @cons name rs rs' h =>
                        simp only [List.length_cons] at hlength
                        dsimp only
                        split
                        · exact rel_map_ahead [.lexeme (.scopePrefix scope) r,
                            .lexeme .operator dot, .lexeme (.parameter scope) name]
                            (ih rs.length (by omega) h rfl)
                        · exact .none
          split
          · exact .none
          · exact .some (.longer _ (.cons r h))

/-- A header is closed or not: without runs there is no colon. -/
theorem close?_append (hb : isBlank b = true) (name : Text) (middle : List Piece)
    {rs rs' : List Text} (h : Longer b rs rs') :
    close? name middle rs' = close? name middle rs := by
  have hskip := skipBlanks_ahead hb h
  unfold close?
  generalize skipBlanks rs = out at hskip
  generalize skipBlanks rs' = out' at hskip
  cases hskip with
  | longer gap h =>
      dsimp only
      rw [h.flatten, Shape.isClosingColon_append hb]
  | nothing gap gap' => rfl

/-- What follows the name is read alike, step by step. -/
theorem afterName?_append (hb : isBlank b = true) (name : Text) {rs rs' : List Text}
    (h : Longer b rs rs') : afterName? name rs' = afterName? name rs := by
  have hskip := skipBlanks_ahead hb h
  unfold afterName?
  generalize skipBlanks rs = start at hskip
  generalize skipBlanks rs' = start' at hskip
  cases hskip with
  | nothing gap gap' => rfl
  | @longer gap mid mid' h =>
      dsimp only
      obtain ⟨hopen, hlonger⟩ := openParen_longer hb h
      rw [hopen]
      have hparameters := parameters_ahead hb (!(openParen mid).1.isEmpty) hlonger
      generalize parameters (!(openParen mid).1.isEmpty) (openParen mid).2 = out at hparameters
      generalize parameters (!(openParen mid).1.isEmpty) (openParen mid').2 = out' at hparameters
      cases hparameters with
      | none => rfl
      | some hout =>
          cases hout with
          | longer ps h => exact close?_append hb _ _ h
          | nothing ps ps' => rfl

/-- **HEADERS**: a blank behind a text does not change the header in it. -/
theorem ofText?_append (hb : isBlank b = true) (t : Text) : ofText? (t ++ [b]) = ofText? t := by
  rw [ofText?_eq, ofText?_eq, Shape.word_append hb, Shape.drop_word_append]
  exact afterName?_append hb _ (runs_append hb _)

end Header

end ScriptAtlas
