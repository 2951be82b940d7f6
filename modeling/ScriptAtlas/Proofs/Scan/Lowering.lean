import ScriptAtlas.Proofs.Scan.Comparison
import ScriptAtlas.Proofs.Scan.Pieces
import Mathlib

/-! # Lowering — shapes and headers of a text in lower case

    Words are looked up in lower case, and every other test of a character
    gives one answer for all letters.  The route:

    * a test that is the same for all letters ignores case (`apply_toLower`), and
      a sign is lowered to itself only (`lower_eq_iff`);
    * hence every shape of a lowered text is the lowered shape;
    * hence the header read off a lowered text is the lowered header
      (`Header.ofText?_lower`). -/

namespace ScriptAtlas

open Vocabulary Text

/-! ## Characters -/

/-- What is the same for all letters does not tell a letter from its lower case. -/
theorem apply_toLower {α : Type} {f : Char → α} {a : α} (h : ∀ c : Char, c.isAlpha = true → f c = a)
    (c : Char) : f c.toLower = f c := by
  by_cases hc : c.isAlpha = true
  · rw [h c hc, h c.toLower (by rw [Char.isAlpha_toLower_eq_isAlpha, hc])]
  · have hupper : ¬ c.isUpper = true := fun hu => hc (by simp [Char.isAlpha, hu])
    rw [Char.toLower_eq_of_not_isUpper hupper]

/-- Every letter may start an identifier. -/
theorem isIdentifierStart_of_isAlpha {c : Char} (h : c.isAlpha = true) :
    isIdentifierStart c = true := by
  simp [isIdentifierStart, h]

/-- Every letter may stand in one. -/
theorem isIdentifierChar_of_isAlpha {c : Char} (h : c.isAlpha = true) :
    isIdentifierChar c = true :=
  isIdentifierChar_of_isIdentifierStart (isIdentifierStart_of_isAlpha h)

/-- No letter is a digit; their codes lie apart. -/
theorem isDigit_of_isAlpha {c : Char} (h : c.isAlpha = true) : c.isDigit = false := by
  delta Char.isAlpha Char.isUpper Char.isLower at h
  delta Char.isDigit
  simp only [Bool.or_eq_true, Bool.and_eq_true, decide_eq_true_eq, ge_iff_le,
    UInt32.le_iff_toNat_le] at h
  simp only [Bool.and_eq_false_iff, decide_eq_false_iff_not, ge_iff_le, UInt32.le_iff_toNat_le]
  rcases h with ⟨h, -⟩ | ⟨h, -⟩
  · change 65 ≤ _ at h
    change _ ∨ ¬ _ ≤ 57
    omega
  · change 97 ≤ _ at h
    change _ ∨ ¬ _ ≤ 57
    omega

/-- A test of characters that gives the same answer in either case. -/
def IgnoresCase (p : Char → Bool) : Prop := ∀ c : Char, p c.toLower = p c

/-- Whether a character may start an identifier: all letters may. -/
theorem isIdentifierStart_ignoresCase : IgnoresCase isIdentifierStart :=
  apply_toLower fun _ => isIdentifierStart_of_isAlpha

/-- Whether it may stand in one: all letters may. -/
theorem isIdentifierChar_ignoresCase : IgnoresCase isIdentifierChar :=
  apply_toLower fun _ => isIdentifierChar_of_isAlpha

/-- Whether it is a blank: no letter is. -/
theorem isBlank_ignoresCase : IgnoresCase isBlank :=
  apply_toLower fun _ h => isBlank_of_isIdentifierChar (isIdentifierChar_of_isAlpha h)

/-- Whether it is a digit: no letter is. -/
theorem isDigit_ignoresCase : IgnoresCase Char.isDigit :=
  apply_toLower fun _ => isDigit_of_isAlpha

/-- Whether it may stand in a path: all letters may. -/
theorem isPathChar_ignoresCase : IgnoresCase isPathChar :=
  apply_toLower (a := true) fun c h => by simp [isPathChar, isIdentifierChar_of_isAlpha h]

/-- Only a sign itself is lowered to it. -/
theorem toLower_eq_iff {x : Char} (hx : x.isAlpha = false) (c : Char) : c.toLower = x ↔ c = x := by
  have h : decide (c.toLower = x) = decide (c = x) := by
    refine apply_toLower (f := fun c => decide (c = x)) (a := false) ?_ c
    rintro c hc
    rw [decide_eq_false_iff_not]
    rintro rfl
    rw [hx] at hc
    exact Bool.noConfusion hc
  exact decide_eq_decide.mp h

/-- The same as a test. -/
theorem toLower_beq {x : Char} (hx : x.isAlpha = false) (c : Char) :
    (c.toLower == x) = (c == x) := by
  rw [Bool.eq_iff_iff, beq_iff_eq, beq_iff_eq, toLower_eq_iff hx]

/-! ## Texts -/

/-- Lowering twice is lowering once. -/
theorem lower_lower (t : Text) : lower (lower t) = lower t := by
  simp [lower]

/-- Lowering works character by character. -/
theorem length_lower (t : Text) : (lower t).length = t.length := List.length_map _

theorem drop_lower (t : Text) (n : Nat) : (lower t).drop n = lower (t.drop n) :=
  List.map_drop.symm

theorem take_lower (t : Text) (n : Nat) : (lower t).take n = lower (t.take n) :=
  List.map_take.symm

theorem lower_append (t u : Text) : lower (t ++ u) = lower t ++ lower u := List.map_append

/-- A run of characters that pass a test reaches as far in lower case. -/
theorem takeWhile_lower {p : Char → Bool} (hp : IgnoresCase p) (t : Text) :
    (lower t).takeWhile p = lower (t.takeWhile p) := by
  rw [lower, List.takeWhile_map, show p ∘ Char.toLower = p from funext hp, lower]

/-- So what follows it starts at the same place. -/
theorem dropWhile_lower {p : Char → Bool} (hp : IgnoresCase p) (t : Text) :
    (lower t).dropWhile p = lower (t.dropWhile p) := by
  rw [lower, List.dropWhile_map, show p ∘ Char.toLower = p from funext hp, lower]

/-- Some character passes in lower case when one passes. -/
theorem any_lower {p : Char → Bool} (hp : IgnoresCase p) (t : Text) :
    (lower t).any p = t.any p := by
  rw [lower, List.any_map, show p ∘ Char.toLower = p from funext hp]

/-- The first character is tested alike. -/
theorem any_head?_lower {p : Char → Bool} (hp : IgnoresCase p) (t : Text) :
    (lower t).head?.any p = t.head?.any p := by
  cases t with
  | nil => rfl
  | cons a t => exact hp a

/-- The blanks at the end are the same. -/
theorem trimEnd_lower (t : Text) : trimEnd (lower t) = lower (trimEnd t) := by
  have hreverse : (lower t).reverse = lower t.reverse := List.map_reverse.symm
  rw [trimEnd, dropEndWhile, hreverse, dropWhile_lower isBlank_ignoresCase]
  exact List.map_reverse.symm

/-- A text without letters. -/
def IsSigns (u : Text) : Prop := ∀ x ∈ u, x.isAlpha = false

instance (u : Text) : Decidable (IsSigns u) := List.decidableBAll _ u

/-- A lowered text starts with a sign exactly when the text does. -/
theorem lower_eq_cons_iff {x : Char} (hx : x.isAlpha = false) {t u : Text} :
    lower t = x :: u ↔ ∃ rest, t = x :: rest ∧ lower rest = u := by
  constructor
  · intro h
    obtain ⟨a, rest, rfl, ha, hu⟩ := List.map_eq_cons_iff.mp h
    exact ⟨rest, by rw [(toLower_eq_iff hx a).mp ha], hu⟩
  · rintro ⟨rest, rfl, rfl⟩
    exact congrArg (· :: lower rest) ((toLower_eq_iff hx x).mpr rfl)

/-- Only signs themselves are lowered to them. -/
theorem lower_eq_iff {u : Text} (hu : IsSigns u) (t : Text) : lower t = u ↔ t = u := by
  induction u generalizing t with
  | nil => exact List.map_eq_nil_iff
  | cons x u ih =>
      obtain ⟨hx, hu⟩ := List.forall_mem_cons.mp hu
      rw [lower_eq_cons_iff hx]
      simp only [ih hu]
      constructor
      · rintro ⟨rest, rfl, rfl⟩
        rfl
      · rintro rfl
        exact ⟨u, rfl, rfl⟩

/-- The same as a test. -/
theorem lower_beq {u : Text} (hu : IsSigns u) (t : Text) : (lower t == u) = (t == u) := by
  rw [Bool.eq_iff_iff, beq_iff_eq, beq_iff_eq, lower_eq_iff hu]

/-- Signs in a list are found in lower case. -/
theorem contains_lower {us : List Text} (hus : ∀ u ∈ us, IsSigns u) (t : Text) :
    us.contains (lower t) = us.contains t := by
  rw [Bool.eq_iff_iff, List.contains_iff_mem, List.contains_iff_mem]
  constructor
  · intro h
    rwa [← (lower_eq_iff (hus _ h) t).mp rfl] at h
  · intro h
    rwa [(lower_eq_iff (hus _ h) t).mpr rfl]

/-- A lowered text starts with signs exactly when the text does. -/
theorem isPrefixOf_lower {u : Text} (hu : IsSigns u) (t : Text) :
    u.isPrefixOf (lower t) = u.isPrefixOf t := by
  induction u generalizing t with
  | nil => cases t <;> rfl
  | cons x u ih =>
      obtain ⟨hx, hu⟩ := List.forall_mem_cons.mp hu
      cases t with
      | nil => rfl
      | cons a t =>
          show (x == a.toLower && u.isPrefixOf (lower t)) = (x == a && u.isPrefixOf t)
          rw [ih hu, Bool.beq_comm, toLower_beq hx, Bool.beq_comm]

/-- A sign occurs in a lowered text exactly when it does in the text. -/
theorem contains_lower_sign {x : Char} (hx : x.isAlpha = false) (t : Text) :
    (lower t).contains x = t.contains x := by
  rw [List.contains_eq_any_beq, List.contains_eq_any_beq]
  refine any_lower ?_ t
  intro c
  show (x == c.toLower) = (x == c)
  rw [Bool.beq_comm, toLower_beq hx, Bool.beq_comm]

/-- The first character differs from a sign in either case. -/
theorem head?_lower_bne {x : Char} (hx : x.isAlpha = false) (t : Text) :
    ((lower t).head? != some x) = (t.head? != some x) := by
  cases t with
  | nil => rfl
  | cons a t =>
      show (!(some a.toLower == some x)) = !(some a == some x)
      rw [Option.some_beq_some, toLower_beq hx, Option.some_beq_some]

/-! ## Words -/

/-- Names are compared in lower case already. -/
theorem sameName_lower (a b : Text) : sameName (lower a) b = sameName a b := by
  rw [sameName, lower_lower, sameName]

/-- Keywords are looked up in lower case. -/
theorem isKeyword_lower (w : Text) : isKeyword (lower w) = isKeyword w := by
  rw [isKeyword, lower_lower, isKeyword]

/-- So are scopes. -/
theorem Scope.ofWord?_lower (w : Text) : ofWord? (lower w) = ofWord? w := by
  rw [ofWord?, lower_lower, ofWord?]

/-- So are the names that give a thread its role. -/
theorem ThreadRole.ofName_lower (name : Text) : ofName (lower name) = ofName name := by
  rw [ofName, lower_lower, ofName]

/-! ## Shapes -/

namespace Shape

/-- The word at the start of a lowered text. -/
theorem word_lower (t : Text) : word (lower t) = lower (word t) :=
  takeWhile_lower isIdentifierChar_ignoresCase t

theorem blanks_lower (t : Text) : blanks (lower t) = lower (blanks t) :=
  takeWhile_lower isBlank_ignoresCase t

/-- An identifier starts a lowered text exactly when it starts the text. -/
theorem startsIdentifier_lower (t : Text) : startsIdentifier (lower t) = startsIdentifier t :=
  any_head?_lower isIdentifierStart_ignoresCase t

/-- A number: digits, and a fraction if a digit follows the point. -/
theorem number_lower (t : Text) : number (lower t) = lower (number t) := by
  rw [number, number, takeWhile_lower isDigit_ignoresCase, length_lower, drop_lower]
  generalize t.drop (t.takeWhile Char.isDigit).length = u
  split
  · -- the point is a sign, so it stands in the text itself
    rename_i d rest h
    obtain ⟨u, rfl, hu⟩ := (lower_eq_cons_iff rfl).mp h
    obtain ⟨d, rest, rfl, rfl, rfl⟩ := List.map_eq_cons_iff.mp hu
    rw [isDigit_ignoresCase]
    show _ = lower (if d.isDigit = true then _ else _)
    split
    · rw [lower_append]
      exact congrArg _ (congrArg _ (takeWhile_lower isDigit_ignoresCase (d :: rest)))
    · rfl
  · rename_i hnot
    split
    · rename_i d rest
      exact absurd rfl (hnot d.toLower (lower rest))
    · rfl

/-- A string up to its closing quote; quotes and backslashes are signs. -/
theorem stringTail_lower (t : Text) : stringTail (lower t) = lower (stringTail t) := by
  fun_induction stringTail t with
  | case1 => rfl
  | case2 rest => rfl
  | case3 c rest ih => exact congrArg (['\\', c.toLower] ++ ·) ih
  | case4 c rest hquote hescape ih =>
      -- a character that neither closes nor escapes is lowered to one that does neither
      show stringTail (c.toLower :: lower rest) = c.toLower :: lower (stringTail rest)
      rw [stringTail.eq_4, ih]
      · exact fun h => hquote ((toLower_eq_iff rfl c).mp h)
      · intro d rest' hc hrest
        obtain ⟨d, rest', rfl, -, -⟩ := List.map_eq_cons_iff.mp hrest
        exact hescape d rest' ((toLower_eq_iff rfl c).mp hc) rfl

/-- A comment through the two signs that close it. -/
theorem throughClose_lower (t : Text) : throughClose (lower t) = (throughClose t).map lower := by
  fun_induction throughClose t with
  | case1 => rfl
  | case2 rest => rfl
  | case3 c rest hnot ih =>
      show throughClose (c.toLower :: lower rest) = _
      rw [throughClose.eq_3, ih, Option.map_map, Option.map_map]
      · rfl
      · intro rest' hc hrest
        obtain ⟨rest', rfl, -⟩ := (lower_eq_cons_iff rfl).mp hrest
        exact hnot rest' ((toLower_eq_iff rfl c).mp hc) rfl

/-- A path: its characters, the separators in it and the colons behind it are signs or tests. -/
theorem path?_lower (expected : Bool) (t : Text) :
    path? expected (lower t) = (path? expected t).map lower := by
  have hstart : IgnoresCase fun c => isIdentifierStart c || c == '.' := by
    intro c
    show (isIdentifierStart c.toLower || c.toLower == '.') = _
    rw [isIdentifierStart_ignoresCase, toLower_beq rfl]
  simp only [path?, takeWhile_lower isPathChar_ignoresCase, any_head?_lower hstart,
    any_lower isIdentifierChar_ignoresCase, lower_lower, length_lower, drop_lower,
    contains_lower_sign (x := '/') rfl, contains_lower_sign (x := '\\') rfl,
    isPrefixOf_lower (u := "::".toList) (by decide +kernel)]
  split
  · rfl
  · rfl

/-- Operators are made of signs. -/
theorem operator?_lower (t : Text) : operator? (lower t) = (operator? t).map lower := by
  have hwide : ∀ op ∈ wideOperators, IsSigns op := by decide +kernel
  have hnarrow : IgnoresCase narrowOperators.contains := by
    refine apply_toLower (a := false) ?_
    intro c hc
    rw [Bool.eq_false_iff]
    intro hmem
    have hsign : IsSigns narrowOperators := by decide +kernel
    rw [hsign c (List.contains_iff_mem.mp hmem)] at hc
    exact Bool.noConfusion hc
  rw [operator?, operator?, take_lower, take_lower, contains_lower hwide, any_head?_lower hnarrow]
  split
  · rfl
  · split
    · rfl
    · rfl

/-- Brackets are counted and assignments are made of signs. -/
theorem assignsAfter_lower (depth : Nat) (t : Text) :
    assignsAfter depth (lower t) = assignsAfter depth t := by
  have hwrite : ∀ op ∈ writeOperators, IsSigns op := by decide +kernel
  induction t generalizing depth with
  | nil => rfl
  | cons c rest ih =>
      show assignsAfter depth (c.toLower :: lower rest) = assignsAfter depth (c :: rest)
      cases depth with
      | zero =>
          have htake : c.toLower :: (lower rest).take 1 = lower (c :: rest.take 1) :=
            congrArg _ (take_lower rest 1)
          simp only [assignsAfter, isBlank_ignoresCase c, toLower_beq (x := '[') rfl,
            toLower_beq (x := '=') rfl, ih, head?_lower_bne (x := '=') rfl, htake,
            contains_lower hwrite]
      | succ depth =>
          simp only [assignsAfter, toLower_beq (x := '[') rfl, toLower_beq (x := ']') rfl, ih]

/-- Nothing or a comment follows a closing colon, in either case. -/
theorem isTrailer_lower (t : Text) : isTrailer (lower t) = isTrailer t := by
  rw [isTrailer, isTrailer, dropWhile_lower isBlank_ignoresCase]
  generalize t.dropWhile isBlank = u
  split
  · rename_i h
    rw [List.map_eq_nil_iff.mp h]
  · rename_i c _ h
    obtain ⟨u, rfl, hu⟩ := (lower_eq_cons_iff rfl).mp h
    obtain ⟨c, rest, rfl, rfl, -⟩ := List.map_eq_cons_iff.mp hu
    rw [toLower_beq rfl, toLower_beq rfl]
    rfl
  · rename_i hnil hslash
    split
    · exact absurd rfl hnil
    · exact absurd rfl (hslash _ _)
    · rfl

/-- So a colon closes a header or a label in either case. -/
theorem isClosingColon_lower (t : Text) : isClosingColon (lower t) = isClosingColon t := by
  unfold isClosingColon
  split
  · rename_i h
    obtain ⟨rest, rfl, rfl⟩ := (lower_eq_cons_iff rfl).mp h
    rw [head?_lower_bne rfl, isTrailer_lower]
    rfl
  · rename_i hcolon
    split
    · exact absurd rfl (hcolon _)
    · rfl

end Shape

/-! ## Headers -/

/-- The piece in lower case. -/
def Piece.lowered : Piece → Piece
  | gap t => gap (lower t)
  | lexeme k t => lexeme k (lower t)

theorem Piece.gaps_lower (t : Text) : gaps (lower t) = (gaps t).map lowered := by
  cases t <;> rfl

namespace Header

/-- The header in lower case. -/
def lowered (h : Header) : Header := ⟨lower h.name, h.middle.map Piece.lowered⟩

/-- Neighbours stand in one run in either case. -/
theorem sameRun_toLower (a b : Char) : sameRun a.toLower b.toLower = sameRun a b := by
  simp only [sameRun, isIdentifierChar_ignoresCase a, isIdentifierChar_ignoresCase b,
    isBlank_ignoresCase a, isBlank_ignoresCase b]

/-- The runs of a lowered text are the lowered runs. -/
theorem runs_lower (t : Text) : runs (lower t) = (runs t).map lower := by
  fun_induction runs t with
  | case1 => rfl
  | case2 c cs d ds rest hruns hsame ih =>
      rw [hruns] at ih
      show runs (c.toLower :: lower cs) = _
      rw [runs, ih]
      show (if sameRun c.toLower d.toLower = true then _ else _) = _
      rw [sameRun_toLower, if_pos hsame]
      rfl
  | case3 c cs d ds rest hruns hsame ih =>
      rw [hruns] at ih
      show runs (c.toLower :: lower cs) = _
      rw [runs, ih]
      show (if sameRun c.toLower d.toLower = true then _ else _) = _
      rw [sameRun_toLower, if_neg hsame]
      rfl
  | case4 c cs hnot ih =>
      show runs (c.toLower :: lower cs) = _
      rw [runs, ih]
      split
      · -- the first run is not empty in lower case only if it was not before
        rename_i d ds rest hruns
        obtain ⟨r, rest, hcs, hr, -⟩ := List.map_eq_cons_iff.mp hruns
        obtain ⟨d, ds, rfl, -, -⟩ := List.map_eq_cons_iff.mp hr
        exact absurd hcs (hnot d ds rest)
      · rfl

theorem isBlankRun_lower (r : Text) : isBlankRun (lower r) = isBlankRun r :=
  any_head?_lower isBlank_ignoresCase r

/-- Blanks are skipped alike. -/
theorem skipBlanks_lower (rs : List Text) :
    skipBlanks (rs.map lower) = (lower (skipBlanks rs).1, (skipBlanks rs).2.map lower) := by
  cases rs with
  | nil => rfl
  | cons r rs =>
      rw [List.map_cons, skipBlanks, skipBlanks, isBlankRun_lower]
      split
      · rfl
      · rfl

/-- What is read in lower case: pieces and the runs after them. -/
def loweredOutcome (outcome : List Piece × List Text) : List Piece × List Text :=
  (outcome.1.map Piece.lowered, outcome.2.map lower)

/-- The parameters of a lowered header are the lowered parameters. -/
theorem parameters_lower (parenthesized : Bool) (rs : List Text) :
    parameters parenthesized (rs.map lower)
      = (parameters parenthesized rs).map loweredOutcome := by
  induction hlength : rs.length using Nat.strongRecOn generalizing rs with
  | ind n ih =>
      cases rs with
      | nil => cases parenthesized <;> rfl
      | cons r rs =>
          rw [List.length_cons] at hlength
          -- every test answers alike, so both sides take the same branch
          rw [List.map_cons, parameters.eq_def, parameters.eq_def parenthesized (r :: rs)]
          simp only [isBlankRun_lower, lower_beq (u := [',']) (by decide),
            lower_beq (u := [')']) (by decide), Shape.startsIdentifier_lower, Scope.ofWord?_lower]
          split
          · rw [ih rs.length (by omega) rs rfl, Option.map_map, Option.map_map]
            rfl
          split
          · rw [ih rs.length (by omega) rs rfl, Option.map_map, Option.map_map]
            rfl
          split
          · rfl
          split
          · cases rs with
            | nil => cases Scope.ofWord? r <;> rfl
            | cons dot rs =>
                cases rs with
                | nil => cases Scope.ofWord? r <;> rfl
                | cons name rs =>
                    cases Scope.ofWord? r with
                    | none => rfl
                    | some scope =>
                        simp only [List.length_cons] at hlength
                        simp only [List.map_cons, lower_beq (u := ['.']) (by decide),
                          Shape.startsIdentifier_lower]
                        split
                        · rw [ih rs.length (by omega) rs rfl, Option.map_map, Option.map_map]
                          rfl
                        · rfl
          split
          · rfl
          · rfl

/-- An opening parenthesis is a sign. -/
theorem openParen_lower (rs : List Text) :
    openParen (rs.map lower) = loweredOutcome (openParen rs) := by
  unfold openParen
  split
  · rename_i h
    obtain ⟨r, rs, rfl, hr, rfl⟩ := List.map_eq_cons_iff.mp h
    obtain rfl := (lower_eq_iff (by decide) r).mp hr
    rfl
  · rename_i hnot
    split
    · exact absurd rfl (hnot _)
    · rfl

/-- A header is closed in lower case when it is closed. -/
theorem close?_lower (name : Text) (middle : List Piece) (rs : List Text) :
    close? (lower name) (middle.map Piece.lowered) (rs.map lower)
      = (close? name middle rs).map lowered := by
  have hflatten (rs : List Text) : (rs.map lower).flatten = lower rs.flatten :=
    List.map_flatten.symm
  unfold close?
  rw [skipBlanks_lower]
  dsimp only
  rw [hflatten, Shape.isClosingColon_lower, Piece.gaps_lower, ← List.map_append]
  split
  · rfl
  · rfl

/-- What follows the name is read alike, step by step. -/
theorem afterName?_lower (name : Text) (rs : List Text) :
    afterName? (lower name) (rs.map lower) = (afterName? name rs).map lowered := by
  unfold afterName?
  simp only [skipBlanks_lower, openParen_lower, loweredOutcome, List.isEmpty_map, parameters_lower,
    Piece.gaps_lower, Option.bind_map, Option.map_bind, Function.comp_def, ← List.map_append,
    close?_lower]

/-- **HEADERS**: the header read off a lowered text is the lowered header. -/
theorem ofText?_lower (t : Text) : ofText? (lower t) = (ofText? t).map lowered := by
  rw [ofText?_eq, ofText?_eq, Shape.word_lower, length_lower, drop_lower, runs_lower,
    afterName?_lower]

theorem pieces_lowered (h : Header) (k : Kind) :
    h.lowered.pieces k = (h.pieces k).map Piece.lowered := by
  rw [pieces, pieces, List.map_append]
  rfl

/-- A header without parameters stays one. -/
theorem isBare_lowered (h : Header) : h.lowered.isBare = h.isBare := by
  have hlexeme : Piece.isLexeme ∘ Piece.lowered = Piece.isLexeme := by
    funext p
    cases p <;> rfl
  rw [isBare, isBare, lowered, List.any_map, hlexeme]

end Header

end ScriptAtlas
