import ScriptAtlas.Proofs.Scan.Lowering

/-! # Letter case — scanning does not look at it

    Lowering a text before it is scanned is lowering its lexemes after.  The
    route:

    * every matcher cuts lowered pieces off a lowered text (`cut_lower`), since
      all that it looks at ahead and behind answers alike in either case;
    * a row in lower case leaves the same state (`afterRow_lower`);
    * hence `scan_lower`, and texts that agree up to case have scans that do. -/

namespace ScriptAtlas

open Vocabulary Text

/-! ## Matchers -/

/-- A piece in lower case acts on the state of a row as it does. -/
theorem Piece.lowered_actsAs (p : Piece) : p.lowered.ActsAs p := by
  cases p with
  | gap t => exact ⟨rfl, fun _ _ => rfl, fun _ => rfl, fun _ _ => rfl⟩
  | lexeme k t =>
      cases k with
      | keyword =>
          refine ⟨rfl, fun _ _ => rfl, fun word => sameName_lower t word.toList, ?_⟩
          exact fun _ _ => congrArg some (lower_lower t)
      | threadEnd =>
          exact ⟨rfl, fun _ _ => rfl, fun word => sameName_lower t word.toList, fun _ _ => rfl⟩
      | operator =>
          refine ⟨rfl, ?_, fun _ => rfl, fun _ _ => rfl⟩
          intro op hop
          have hsigns : ∀ op ∈ ["(", ")", "\x7b", "\\"], IsSigns op.toList := by decide +kernel
          exact lower_beq (hsigns op hop) t
      | _ => exact ⟨rfl, fun _ _ => rfl, fun _ => rfl, fun _ _ => rfl⟩

namespace Scan

/-- The place in lower case. -/
def Context.lowered (c : Context) : Context := ⟨c.state, c.done.map Piece.lowered⟩

/-- The cut in lower case. -/
def Cut.lowered (cut : Cut) : Cut := ⟨cut.pieces.map Piece.lowered, cut.state⟩

variable (c : Context) (t : Text)

/-- Which pieces count does not depend on case. -/
theorem atStatementStart_lowered : c.lowered.atStatementStart = c.atStatementStart := by
  have hsignificant : Piece.isSignificant ∘ Piece.lowered = Piece.isSignificant :=
    funext fun p => p.lowered_actsAs.significant
  rw [Context.atStatementStart, Context.lowered, List.any_map, hsignificant]
  rfl

theorem closesThread_lowered : c.lowered.closesThread = c.closesThread := by
  rw [Context.closesThread, atStatementStart_lowered]
  rfl

/-- A path is expected after the same words. -/
theorem expectsPath_lowered : c.lowered.expectsPath = c.expectsPath := by
  have hsignificant : Piece.isSignificant ∘ Piece.lowered = Piece.isSignificant :=
    funext fun p => p.lowered_actsAs.significant
  unfold Context.expectsPath
  rw [Context.lowered, List.find?_map, hsignificant]
  cases c.done.find? Piece.isSignificant with
  | none => rfl
  | some p =>
      have hkeyword := p.lowered_actsAs.keyword
      cases p with
      | gap u => rfl
      | lexeme k u =>
          cases k with
          | directive => rfl
          | _ => exact congrArg₂ or (hkeyword "exec") (hkeyword "waitexec")

/-- The rest of a row as a comment, less the blanks at its end. -/
theorem restAsComment_lower : restAsComment (lower t) = (restAsComment t).map Piece.lowered := by
  rw [restAsComment, trimEnd_lower, length_lower, drop_lower, Piece.gaps_lower]
  rfl

/-- A comment from an earlier row goes on to the same place. -/
theorem openComment_lower :
    openComment c.lowered (lower t) = (openComment c t).map Cut.lowered := by
  unfold openComment
  rw [Shape.throughClose_lower, restAsComment_lower]
  show (if c.state.inComment = true then _ else _) = _
  split
  · cases Shape.throughClose t with
    | none => rfl
    | some closed => rfl
  · rfl

/-- Two slashes start a comment. -/
theorem lineComment_lower :
    lineComment c.lowered (lower t) = (lineComment c t).map Cut.lowered := by
  unfold lineComment
  split
  · rename_i h
    obtain ⟨u, rfl, hu⟩ := (lower_eq_cons_iff rfl).mp h
    obtain ⟨rest, rfl, rfl⟩ := (lower_eq_cons_iff rfl).mp hu
    exact congrArg (fun ps => some (c.keep ps)) (restAsComment_lower ('/' :: '/' :: rest))
  · rename_i hnot
    split
    · exact absurd rfl (hnot _)
    · rfl

/-- So do a slash and a star. -/
theorem blockComment_lower :
    blockComment c.lowered (lower t) = (blockComment c t).map Cut.lowered := by
  unfold blockComment
  split
  · rename_i h
    obtain ⟨u, rfl, hu⟩ := (lower_eq_cons_iff rfl).mp h
    obtain ⟨rest, rfl, rfl⟩ := (lower_eq_cons_iff rfl).mp hu
    simp only [Shape.throughClose_lower, restAsComment_lower]
    cases Shape.throughClose rest with
    | none => rfl
    | some closed => rfl
  · rename_i hnot
    split
    · exact absurd rfl (hnot _)
    · rfl

/-- A quote starts a string. -/
theorem stringLiteral_lower :
    stringLiteral c.lowered (lower t) = (stringLiteral c t).map Cut.lowered := by
  unfold stringLiteral
  split
  · rename_i h
    obtain ⟨rest, rfl, rfl⟩ := (lower_eq_cons_iff rfl).mp h
    rw [Shape.stringTail_lower]
    rfl
  · rename_i hnot
    split
    · exact absurd rfl (hnot _)
    · rfl

/-- A digit starts a number. -/
theorem numberLiteral_lower :
    numberLiteral c.lowered (lower t) = (numberLiteral c t).map Cut.lowered := by
  unfold numberLiteral
  rw [any_head?_lower isDigit_ignoresCase, Shape.number_lower]
  split
  · rfl
  · rfl

/-- A header is taken for a thread by its name, which is looked up in lower case. -/
theorem threadHeader_lower :
    threadHeader c.lowered (lower t) = (threadHeader c t).map Cut.lowered := by
  unfold threadHeader
  rw [Shape.startsIdentifier_lower, Header.ofText?_lower]
  show (if c.lowered.done.isEmpty && !c.state.continued && _ then _ else _) = _
  rw [Context.lowered, List.isEmpty_map]
  split
  · cases Header.ofText? t with
    | none => rfl
    | some h =>
        dsimp only [Option.map_some]
        have hname : (isKeyword h.lowered.name || isScope h.lowered.name)
            = (isKeyword h.name || isScope h.name) := by
          rw [Header.lowered, isKeyword_lower, isScope, Scope.ofWord?_lower, isScope]
        have hrole : ThreadRole.ofName h.lowered.name = ThreadRole.ofName h.name :=
          ThreadRole.ofName_lower h.name
        rw [hname, Header.isBare_lowered, hrole, Header.pieces_lowered, Header.pieces_lowered]
        split
        · rfl
        · split
          · rfl
          · rfl
  · rfl

/-- A label is told by its word, its blanks and its colon. -/
theorem labelDefinition_lower :
    labelDefinition c.lowered (lower t) = (labelDefinition c t).map Cut.lowered := by
  unfold labelDefinition
  simp only [atStatementStart_lowered, Shape.startsIdentifier_lower, Shape.word_lower, length_lower,
    drop_lower, Shape.blanks_lower, Shape.isClosingColon_lower, isKeyword_lower, Piece.gaps_lower]
  show (if !c.lowered.done.isEmpty && c.state.threadOpen && _ && _ then _ else _) = _
  rw [Context.lowered, List.isEmpty_map]
  split
  · split
    · -- the word, the blanks and the colon are lowered one by one
      rw [Option.map_some, Cut.lowered, Context.keep, Context.keep, List.map_append]
      rfl
    · rfl
  · rfl

/-- Words are reserved in either case, and `end` closes a thread at the same places. -/
theorem reservedWord_lower :
    reservedWord c.lowered (lower t) = (reservedWord c t).map Cut.lowered := by
  unfold reservedWord
  split
  · rename_i h
    obtain ⟨rest, rfl, rfl⟩ := (lower_eq_cons_iff rfl).mp h
    simp only [Shape.word_lower, sameName_lower]
    split
    · rfl
    · rfl
  · rename_i hnot
    split
    · exact absurd rfl (hnot _)
    · simp only [Shape.word_lower, Shape.startsIdentifier_lower, isKeyword_lower,
        expectsPath_lowered, Shape.path?_lower, Option.isNone_map, sameName_lower,
        closesThread_lowered]
      split
      · split
        · rfl
        · rfl
      · rfl

/-- A scope and the dot behind it. -/
theorem scopeWord_lower :
    scopeWord c.lowered (lower t) = (scopeWord c t).map Cut.lowered := by
  unfold scopeWord
  simp only [Shape.word_lower, Scope.ofWord?_lower, length_lower, drop_lower,
    Shape.startsIdentifier_lower]
  cases Scope.ofWord? (Shape.word t) with
  | none => rfl
  | some scope =>
      generalize t.drop (Shape.word t).length = after
      split
      · rename_i hscope h
        obtain rfl := Option.some.inj hscope
        obtain ⟨rest, rfl, rfl⟩ := (lower_eq_cons_iff rfl).mp h
        simp only [Shape.startsIdentifier_lower]
        split
        · rfl
        · rfl
      · rename_i hnot
        split
        · exact absurd rfl (hnot _ _ ‹_›)
        · rfl

/-- What stands before a dot tells the kind of the name behind it. -/
theorem dottedKind_lower (previous : Option Piece) (afterName : Text) :
    dottedKind (previous.map Piece.lowered) (lower afterName) = dottedKind previous afterName := by
  cases previous with
  | none => rfl
  | some p =>
      cases p with
      | gap u => rfl
      | lexeme k u =>
          cases k with
          | scopePrefix scope =>
              exact congrArg (fun write => some (Kind.property scope write))
                (Shape.assignsAfter_lower 0 afterName)
          | operator =>
              show (if lower u == [']'] || lower u == [')'] then _ else _) = _
              rw [lower_beq (by decide), lower_beq (by decide)]
              rfl
          | _ => rfl

/-- A dot and the name behind it. -/
theorem dottedName_lower :
    dottedName c.lowered (lower t) = (dottedName c t).map Cut.lowered := by
  unfold dottedName
  split
  · rename_i h
    obtain ⟨rest, rfl, rfl⟩ := (lower_eq_cons_iff rfl).mp h
    simp only [Shape.startsIdentifier_lower, Shape.word_lower, length_lower, drop_lower,
      Context.lowered, List.head?_map, dottedKind_lower]
    split
    · rw [Option.map_map]
      rfl
    · rfl
  · rename_i hnot
    split
    · exact absurd rfl (hnot _)
    · rfl

/-- The thread behind a path and two colons. -/
theorem crossName_lower : crossName (lower t) = (crossName t).map Piece.lowered := by
  unfold crossName
  rw [Shape.startsIdentifier_lower, Shape.word_lower]
  split
  · rfl
  · rfl

/-- A path, with the thread in it that is meant. -/
theorem pathReference_lower :
    pathReference c.lowered (lower t) = (pathReference c t).map Cut.lowered := by
  unfold pathReference
  rw [expectsPath_lowered, Shape.path?_lower]
  cases Shape.path? c.expectsPath t with
  | none => rfl
  | some path =>
      dsimp only [Option.map_some]
      rw [length_lower, drop_lower]
      generalize t.drop path.length = after
      split
      · rename_i h
        obtain ⟨u, rfl, hu⟩ := (lower_eq_cons_iff rfl).mp h
        obtain ⟨rest, rfl, rfl⟩ := (lower_eq_cons_iff rfl).mp hu
        rw [crossName_lower]
        rfl
      · rename_i hnot
        split
        · exact absurd rfl (hnot _)
        · rfl

/-- Any other word. -/
theorem plainWord_lower :
    plainWord c.lowered (lower t) = (plainWord c t).map Cut.lowered := by
  unfold plainWord
  rw [Shape.startsIdentifier_lower, Shape.word_lower]
  split
  · rfl
  · rfl

/-- An operator, which may open or close a brace. -/
theorem operatorSign_lower :
    operatorSign c.lowered (lower t) = (operatorSign c t).map Cut.lowered := by
  have hdepth (op : Text) : depthAfter (lower op) c.state.depth = depthAfter op c.state.depth := by
    rw [depthAfter, lower_beq (by decide), lower_beq (by decide), depthAfter]
  unfold operatorSign
  rw [Shape.operator?_lower, Option.map_map, Option.map_map]
  congr 1
  funext op
  show (⟨_, { c.state with depth := depthAfter (lower op) c.state.depth }⟩ : Cut) = _
  rw [hdepth]
  rfl

/-- A cut of a lowered text is the lowered cut. -/
theorem cut_lower : c.lowered.cut (lower t) = (c.cut t).lowered := by
  have hrel {found found' : Option Cut} (h : found' = found.map Cut.lowered) :
      Option.Rel (fun cut cut' => cut' = cut.lowered) found found' := by
    rw [h]
    cases found with
    | none => exact .none
    | some cut => exact .some rfl
  -- the first matcher that finds something finds it in either case
  refine cut_rel (R := fun cut cut' => cut' = cut.lowered) ?_ ?_
  · simp only [matchers, List.forall_mem_cons]
    exact ⟨hrel (openComment_lower c t), hrel (lineComment_lower c t),
      hrel (blockComment_lower c t), hrel (stringLiteral_lower c t),
      hrel (numberLiteral_lower c t), hrel (threadHeader_lower c t),
      hrel (labelDefinition_lower c t), hrel (reservedWord_lower c t), hrel (scopeWord_lower c t),
      hrel (dottedName_lower c t), hrel (pathReference_lower c t), hrel (plainWord_lower c t),
      hrel (operatorSign_lower c t), List.forall_mem_nil _⟩
  · rw [take_lower]
    rfl

/-! ## Rows and texts -/

/-- Pieces in lower case are as wide. -/
theorem width_lowered (ps : List Piece) : Piece.width (ps.map Piece.lowered) = Piece.width ps := by
  induction ps with
  | nil => rfl
  | cons p ps ih =>
      have hlength : p.lowered.text.length = p.text.length := by
        cases p <;> exact length_lower _
      rw [List.map_cons, Piece.width, Piece.width, ih, hlength]

theorem advance_lowered (cut : Cut) :
    c.lowered.advance cut.lowered = (c.advance cut).lowered := by
  simp [Context.advance, Context.lowered, Cut.lowered]

/-- **STEP BY STEP**: a row in lower case is cut into the lowered pieces. -/
theorem cutFrom_lower (covered : Nat) :
    cutFrom c.lowered covered (lower t) = (cutFrom c covered t).lowered := by
  fun_induction cutFrom c covered t with
  | case1 => rfl
  | case2 c covered a rest ih => exact ih
  | case3 c a rest ha ih =>
      show cutFrom c.lowered 0 (a.toLower :: lower rest) = _
      rw [cutFrom, isBlank_ignoresCase, if_pos ha]
      exact ih
  | case4 c a rest ha next ih =>
      show cutFrom c.lowered 0 (a.toLower :: lower rest) = _
      rw [cutFrom, isBlank_ignoresCase, if_neg ha]
      rw [← advance_lowered] at ih
      have hcut : c.lowered.cut (a.toLower :: lower rest) = next.lowered := cut_lower c (a :: rest)
      rw [hcut]
      dsimp only
      rw [show Piece.width next.lowered.pieces = _ from width_lowered next.pieces]
      exact ih

theorem cutRow_lower (s : State) (row : Text) : cutRow s (lower row) = (cutRow s row).lowered := by
  have hrow := cutFrom_lower ⟨s, []⟩ row 0
  rw [cutRow, show cutFrom ⟨s, []⟩ 0 (lower row) = _ from hrow]
  simp [cutRow, Context.lowered, Cut.lowered]

/-- A row in lower case leaves the same state. -/
theorem afterRow_lower (s : State) (ps : List Piece) :
    s.afterRow (ps.map Piece.lowered) = s.afterRow ps := by
  refine State.afterRow_map Piece.lowered_actsAs s ?_
  rw [List.filter_map]
  congr 2
  exact funext fun p => p.lowered_actsAs.significant

end Scan

/-- The lexeme in lower case. -/
def Lexeme.lowered (l : Lexeme) : Lexeme := { l with text := lower l.text }

/-- Laid out from the same place, lowered pieces are the lowered lexemes. -/
theorem Piece.layOut_lowered (line column : Nat) (ps : List Piece) :
    layOut line column (ps.map lowered) = (layOut line column ps).map Lexeme.lowered := by
  induction ps generalizing column with
  | nil => rfl
  | cons p ps ih =>
      cases p with
      | gap t =>
          show layOut line (column + (lower t).length) (ps.map lowered) = _
          rw [length_lower, ih]
          rfl
      | lexeme k t =>
          show _ :: layOut line (column + (lower t).length) (ps.map lowered) = _
          rw [length_lower, ih]
          rfl

/-- The scan in lower case. -/
def Scan.lowered (scanned : Scan) : Scan :=
  ⟨scanned.lexemes.map Lexeme.lowered, scanned.lines⟩

/-- **ROW BY ROW**: rows in lower case are scanned into the lowered lexemes. -/
theorem Scan.ofRows_lower (s : Scan.State) (line : Nat) (rs : List Text) :
    Scan.ofRows s line (rs.map lower) = (Scan.ofRows s line rs).lowered := by
  induction rs generalizing s line with
  | nil => rfl
  | cons row rs ih =>
      -- the rows after this one start from the same state
      have hcut := Scan.cutRow_lower s row
      have hstate : (Scan.cutRow s (lower row)).state.afterRow (Scan.cutRow s (lower row)).pieces
          = (Scan.cutRow s row).state.afterRow (Scan.cutRow s row).pieces := by
        rw [hcut]
        exact Scan.afterRow_lower _ _
      rw [List.map_cons, Scan.ofRows, hstate, ih, hcut]
      simp only [Scan.ofRows, Scan.lowered, Scan.Cut.lowered, Piece.layOut_lowered,
        List.map_append]

/-- A line end is a sign, so a lowered text has the lowered rows. -/
theorem rows_lower (t : Text) : rows (lower t) = (rows t).map lower := by
  induction t with
  | nil => rfl
  | cons a t ih =>
      have hmodify (rs : List Text) : (rs.map lower).modifyHead (a.toLower :: ·)
          = (rs.modifyHead (a :: ·)).map lower := by
        cases rs <;> rfl
      show List.splitOn '\n' (a.toLower :: lower t) = (List.splitOn '\n' (a :: t)).map lower
      rw [List.splitOn_cons_eq_if_modifyHead, List.splitOn_cons_eq_if_modifyHead,
        toLower_beq rfl]
      split
      · exact congrArg ([] :: ·) ih
      · exact (congrArg _ ih).trans (hmodify (rows t))

/-- The scan of a lowered text is the lowered scan. -/
theorem scan_lower (t : Text) : scan (lower t) = (scan t).lowered := by
  rw [scan, rows_lower, Scan.ofRows_lower, scan]

/-- Two lexemes at the same place, of the same length and kind, with the same text up to letter
    case. -/
structure Lexeme.SameUpToCase (a b : Lexeme) : Prop where
  line : a.line = b.line
  column : a.column = b.column
  length : a.length = b.length
  kind : a.kind = b.kind
  text : sameName a.text b.text = true

/-- Lexemes that are the same in lower case differ in nothing but case. -/
theorem Lexeme.sameUpToCase_of_lowered {a b : Lexeme} (h : a.lowered = b.lowered) :
    a.SameUpToCase b := by
  have htext : lower a.text = lower b.text := congrArg (·.text) h
  refine ⟨congrArg (·.line) h, congrArg (·.column) h, ?_, congrArg (·.kind) h, ?_⟩
  · rw [Lexeme.length, Lexeme.length, ← length_lower, htext, length_lower]
  · exact beq_iff_eq.mpr htext

/-- **CASE INSENSITIVITY**: texts whose characters agree one by one up to ASCII letter case have the
    same lines, and lexemes that agree one by one in place, length and kind. -/
theorem scan_same_up_to_case {t u : Text} (h : List.Forall₂ (fun a b => a.toLower = b.toLower) t u) :
    (scan t).lines = (scan u).lines
      ∧ List.Forall₂ Lexeme.SameUpToCase (scan t).lexemes (scan u).lexemes := by
  have htexts : lower t = lower u := by
    rw [lower, lower, ← List.forall₂_eq_eq_eq, List.forall₂_map_left_iff,
      List.forall₂_map_right_iff]
    exact h
  have hscans : (scan t).lowered = (scan u).lowered := by
    rw [← scan_lower, htexts, scan_lower]
  refine ⟨congrArg (·.lines) hscans, ?_⟩
  have hlexemes : (scan t).lexemes.map Lexeme.lowered = (scan u).lexemes.map Lexeme.lowered :=
    congrArg (·.lexemes) hscans
  rw [← List.forall₂_eq_eq_eq, List.forall₂_map_left_iff, List.forall₂_map_right_iff] at hlexemes
  exact hlexemes.imp fun _ _ => Lexeme.sameUpToCase_of_lowered

/-- Capitals in the role of a thread, a scope, control words, a path and the closing `end`. -/
theorem scan_of_capitals :
    let t : Text := "main local.a:\nif (local.a)\nend\nexec ai/x.scr\nend".toList
    let u : Text := "MAIN Local.A:\nIF (LOCAL.a)\nEnd\neXec AI/x.SCR\nEND".toList
    List.Forall₂ (fun a b => a.toLower = b.toLower) t u
      ∧ (scan t).lines = (scan u).lines
      ∧ List.Forall₂ Lexeme.SameUpToCase (scan t).lexemes (scan u).lexemes := by
  intro t u
  have h : List.Forall₂ (fun a b => a.toLower = b.toLower) t u := by decide +kernel
  exact ⟨h, scan_same_up_to_case h⟩

end ScriptAtlas
