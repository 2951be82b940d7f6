import ScriptAtlas.Lexeme.Scan

/-! # Pieces — every matcher cuts a beginning off the text

    A row is read by matchers that each take some pieces off the characters
    ahead.  The route to "the pieces of a row are the row again":

    * every shape (word, number, string, comment, path, operator) is a
      beginning of the text it is read from;
    * so is the header of a thread, whose runs are read one by one;
    * hence every matcher cuts pieces that begin the text (`Cut.Begins`): its
      lexemes have characters, its gaps have blanks only, and it moves on;
    * hence the pieces of a row tile it (`cutRow_tiles`). -/

namespace ScriptAtlas

open Vocabulary Text

/-! ## Characters and ends of lines -/

/-- No character of an identifier is a blank. -/
theorem isBlank_of_isIdentifierChar {c : Char} (h : isIdentifierChar c = true) :
    isBlank c = false := by
  delta isIdentifierChar Char.isAlphanum Char.isAlpha Char.isUpper Char.isLower Char.isDigit at h
  simp only [Bool.or_eq_true, Bool.and_eq_true, decide_eq_true_eq, beq_iff_eq, ge_iff_le,
    UInt32.le_iff_toNat_le] at h
  simp only [isBlank, Bool.or_eq_false_iff, Bool.and_eq_false_iff, decide_eq_false_iff_not,
    beq_eq_false_iff_ne, Char.toNat]
  rcases h with ((⟨h, h'⟩ | ⟨h, h'⟩) | ⟨h, h'⟩) | rfl
  · change 65 ≤ _ at h
    change _ ≤ 90 at h'
    omega
  · change 97 ≤ _ at h
    change _ ≤ 122 at h'
    omega
  · change 48 ≤ _ at h
    change _ ≤ 57 at h'
    omega
  · decide

/-- What may start an identifier may stand in it. -/
theorem isIdentifierChar_of_isIdentifierStart {c : Char} (h : isIdentifierStart c = true) :
    isIdentifierChar c = true := by
  rw [isIdentifierStart, Bool.or_eq_true] at h
  rw [isIdentifierChar, Char.isAlphanum, Bool.or_eq_true, Bool.or_eq_true]
  rcases h with h | h
  · exact Or.inl (Or.inl h)
  · exact Or.inr h

/-- What trimming takes off the end of a text is blank. -/
theorem trimEnd_append_drop (t : Text) :
    trimEnd t ++ t.drop (trimEnd t).length = t
      ∧ ∀ c ∈ t.drop (trimEnd t).length, isBlank c = true := by
  have hsplit : t = trimEnd t ++ (t.reverse.takeWhile isBlank).reverse := by
    rw [trimEnd, dropEndWhile, ← List.reverse_append, List.takeWhile_append_dropWhile,
      List.reverse_reverse]
  have hdrop := congrArg (List.drop (trimEnd t).length) hsplit
  rw [List.drop_left] at hdrop
  refine ⟨by rw [hdrop]; exact hsplit.symm, ?_⟩
  intro c hc
  rw [hdrop] at hc
  exact List.all_eq_true.mp List.all_takeWhile c (List.mem_reverse.mp hc)

/-- Trimming a text that starts with another character leaves something. -/
theorem trimEnd_ne_nil {a : Char} {rest : Text} (ha : isBlank a = false) :
    trimEnd (a :: rest) ≠ [] := by
  intro h
  have hblank := (trimEnd_append_drop (a :: rest)).2 a
  rw [h, ha] at hblank
  exact nomatch hblank List.mem_cons_self

/-- What stands between two separators holds none. -/
theorem notMem_of_mem_splitOn {x : Char} {t part : Text} (hpart : part ∈ t.splitOn x) :
    x ∉ part := by
  induction t generalizing part with
  | nil =>
      rw [List.splitOn_nil, List.mem_singleton] at hpart
      subst hpart
      exact List.not_mem_nil
  | cons a t ih =>
      rw [List.splitOn_cons_eq_if_modifyHead] at hpart
      by_cases ha : (a == x) = true
      · rw [if_pos ha] at hpart
        rcases List.mem_cons.mp hpart with rfl | hpart
        · exact List.not_mem_nil
        · exact ih hpart
      · rw [if_neg ha] at hpart
        cases hsplit : t.splitOn x with
        | nil => exact absurd hsplit (List.splitOn_ne_nil x t)
        | cons first parts =>
            rw [hsplit] at hpart ih
            rcases List.mem_cons.mp hpart with rfl | hpart
            · intro hx
              rcases List.mem_cons.mp hx with rfl | hx
              · exact ha (beq_self_eq_true x)
              · exact ih List.mem_cons_self hx
            · exact ih (List.mem_cons_of_mem first hpart)

/-- Each part stands in the joined text. -/
theorem isInfix_intercalate {sep part : Text} {parts : List Text} (hpart : part ∈ parts) :
    part <:+: sep.intercalate parts := by
  induction parts with
  | nil => exact absurd hpart List.not_mem_nil
  | cons first parts ih =>
      cases parts with
      | nil =>
          obtain rfl := List.mem_singleton.mp hpart
          simp [List.intercalate_singleton]
      | cons second parts =>
          rw [List.intercalate_cons_cons]
          rcases List.mem_cons.mp hpart with rfl | hpart
          · rw [List.append_assoc]
            exact (List.prefix_append part _).isInfix
          · exact (ih hpart).trans (List.suffix_append _ _).isInfix

/-- What stands between two separators is part of the text. -/
theorem isInfix_of_mem_splitOn {x : Char} {t part : Text} (hpart : part ∈ t.splitOn x) :
    part <:+: t := by
  have hjoined : part <:+: [x].intercalate (t.splitOn x) := isInfix_intercalate hpart
  rwa [List.intercalate_splitOn] at hjoined

/-! ## Shapes are beginnings -/

namespace Shape

/-- A text starts with an identifier when its first character may start one. -/
theorem startsIdentifier_cons {a : Char} {rest : Text} :
    startsIdentifier (a :: rest) = isIdentifierStart a := by
  simp [startsIdentifier]

theorem word_prefix (t : Text) : word t <+: t := List.takeWhile_prefix _

/-- An identifier has a word. -/
theorem word_ne_nil {t : Text} (h : startsIdentifier t = true) : word t ≠ [] := by
  cases t with
  | nil => exact nomatch h
  | cons a rest =>
      rw [startsIdentifier_cons] at h
      rw [word, List.takeWhile_cons_of_pos (isIdentifierChar_of_isIdentifierStart h)]
      exact List.cons_ne_nil _ _

/-- A beginning of a text may be prolonged by a beginning of what follows it. -/
theorem append_prefix {u v t : Text} (hu : u <+: t) (hv : v <+: t.drop u.length) :
    u ++ v <+: t := by
  obtain ⟨w, rfl⟩ := hu
  rw [List.drop_left] at hv
  exact (List.prefix_append_right_inj u).mpr hv

/-- A number stands at the start of its text. -/
theorem number_prefix (t : Text) : number t <+: t := by
  have hwhole : t.takeWhile Char.isDigit <+: t := List.takeWhile_prefix _
  rw [number]
  split
  · rename_i d rest hdrop
    split
    · refine append_prefix hwhole ?_
      rw [hdrop]
      exact List.cons_prefix_cons.mpr ⟨rfl, List.takeWhile_prefix _⟩
    · exact hwhole
  · exact hwhole

theorem number_ne_nil {t : Text} (h : t.head?.any Char.isDigit = true) : number t ≠ [] := by
  have hwhole : t.takeWhile Char.isDigit ≠ [] := by
    cases t with
    | nil => exact nomatch h
    | cons a rest =>
        rw [List.takeWhile_cons_of_pos (by simpa using h)]
        exact List.cons_ne_nil _ _
  rw [number]
  split
  · split
    · exact List.append_ne_nil_of_left_ne_nil hwhole _
    · exact hwhole
  · exact hwhole

/-- A string reaches no further than the text. -/
theorem stringTail_prefix (t : Text) : stringTail t <+: t := by
  fun_induction stringTail t with
  | case1 => exact List.nil_prefix
  | case2 rest => exact List.cons_prefix_cons.mpr ⟨rfl, List.nil_prefix⟩
  | case3 c rest ih => exact List.cons_prefix_cons.mpr ⟨rfl, List.cons_prefix_cons.mpr ⟨rfl, ih⟩⟩
  | case4 c rest _ _ ih => exact List.cons_prefix_cons.mpr ⟨rfl, ih⟩

/-- A comment that closes stands at the start of its text. -/
theorem throughClose_prefix {t closed : Text} (h : throughClose t = some closed) :
    closed <+: t ∧ closed ≠ [] := by
  fun_induction throughClose t generalizing closed with
  | case1 => exact nomatch h
  | case2 rest =>
      rw [← Option.some.inj h]
      exact ⟨⟨rest, rfl⟩, List.cons_ne_nil _ _⟩
  | case3 c rest _ ih =>
      obtain ⟨inner, hinner, rfl⟩ := Option.map_eq_some_iff.mp h
      exact ⟨List.cons_prefix_cons.mpr ⟨rfl, (ih hinner).1⟩, List.cons_ne_nil _ _⟩

/-- So does a path. -/
theorem path?_prefix {expected : Bool} {t path : Text} (h : path? expected t = some path) :
    path <+: t ∧ path ≠ [] := by
  simp only [path?, Option.ite_none_right_eq_some, Option.some.injEq, Bool.and_eq_true] at h
  obtain ⟨⟨⟨-, hany⟩, -⟩, rfl⟩ := h
  refine ⟨List.takeWhile_prefix _, ?_⟩
  intro hnil
  rw [hnil] at hany
  exact nomatch hany

/-- So does an operator. -/
theorem operator?_prefix {t op : Text} (h : operator? t = some op) : op <+: t ∧ op ≠ [] := by
  have hne : t ≠ [] := by
    rintro rfl
    exact nomatch h
  rw [operator?] at h
  split at h
  · rw [← Option.some.inj h]
    exact ⟨List.take_prefix _ _, by simpa using hne⟩
  · split at h
    · rw [← Option.some.inj h]
      exact ⟨List.take_prefix _ _, by simpa using hne⟩
    · exact nomatch h

/-- A closing colon is a colon. -/
theorem eq_cons_of_isClosingColon {t : Text} (h : isClosingColon t = true) :
    ∃ rest, t = ':' :: rest := by
  unfold isClosingColon at h
  split at h
  · rename_i rest
    exact ⟨rest, rfl⟩
  · exact nomatch h

end Shape

/-! ## Pieces that begin a text -/

namespace Piece

/-- The characters of a list of pieces. -/
def texts (ps : List Piece) : Text := ps.flatMap text

/-- A lexeme has characters, and a gap has blanks only. -/
def IsSound : Piece → Prop
  | gap t => ∀ c ∈ t, isBlank c = true
  | lexeme _ t => t ≠ []

@[simp] theorem texts_nil : texts [] = [] := rfl

@[simp] theorem texts_cons (p : Piece) (ps : List Piece) : texts (p :: ps) = p.text ++ texts ps :=
  rfl

@[simp] theorem texts_append (ps qs : List Piece) : texts (ps ++ qs) = texts ps ++ texts qs :=
  List.flatMap_append

@[simp] theorem texts_gaps (t : Text) : texts (gaps t) = t := by
  cases t with
  | nil => rfl
  | cons a rest => simp [gaps, text]

/-- The width of pieces counts their characters. -/
theorem width_eq (ps : List Piece) : width ps = (texts ps).length := by
  induction ps with
  | nil => rfl
  | cons p ps ih => rw [width, ih, texts_cons, List.length_append]

/-- A gap of blanks is sound. -/
theorem isSound_gaps {t : Text} (h : ∀ c ∈ t, isBlank c = true) : ∀ p ∈ gaps t, p.IsSound := by
  intro p hp
  rw [gaps] at hp
  split at hp
  · exact nomatch hp
  · rw [List.mem_singleton.mp hp]
    exact h

end Piece

namespace Header

/-! ## Headers, run by run -/

/-- A run is not empty, and one that starts with a blank is blank. -/
def IsRun (r : Text) : Prop := r ≠ [] ∧ (isBlankRun r = true → ∀ c ∈ r, isBlank c = true)

/-- The runs of a text are the text again. -/
theorem runs_flatten (t : Text) : (runs t).flatten = t := by
  fun_induction runs t with
  | case1 => rfl
  | case2 c cs d ds rest hruns _ ih =>
      rw [hruns] at ih
      rw [← ih]
      rfl
  | case3 c cs d ds rest hruns _ ih =>
      rw [hruns] at ih
      rw [← ih]
      rfl
  | case4 c cs _ ih => rw [List.flatten_cons, ih, List.singleton_append]

/-- A character by itself is a run. -/
theorem isRun_singleton (c : Char) : IsRun [c] := by
  refine ⟨List.cons_ne_nil _ _, ?_⟩
  intro h d hd
  rw [List.mem_singleton.mp hd]
  simpa [isBlankRun] using h

/-- A run may be prolonged by a character of its own sort. -/
theorem isRun_cons {c d : Char} {ds : Text} (hsame : sameRun c d = true) (hrun : IsRun (d :: ds)) :
    IsRun (c :: d :: ds) := by
  refine ⟨List.cons_ne_nil _ _, ?_⟩
  intro h e he
  have hc : isBlank c = true := by simpa [isBlankRun] using h
  -- `c` is blank, so it is no identifier character and the run it prolongs is blank
  have hd : isBlank d = true := by
    rw [sameRun, Bool.or_eq_true, Bool.and_eq_true, Bool.and_eq_true] at hsame
    rcases hsame with ⟨hid, -⟩ | ⟨-, hd⟩
    · rw [isBlank_of_isIdentifierChar hid] at hc
      exact nomatch hc
    · exact hd
  rcases List.mem_cons.mp he with rfl | he
  · exact hc
  · exact hrun.2 (by simpa [isBlankRun] using hd) e he

/-- Every run is made of one sort of character. -/
theorem isRun_of_mem_runs {t : Text} : ∀ r ∈ runs t, IsRun r := by
  intro r hr
  fun_induction runs t generalizing r with
  | case1 => exact nomatch hr
  | case2 c cs d ds rest hruns hsame ih =>
      rw [hruns] at ih
      rcases List.mem_cons.mp hr with hr | hr
      · rw [hr]
        exact isRun_cons hsame (ih _ List.mem_cons_self)
      · exact ih r (List.mem_cons_of_mem _ hr)
  | case3 c cs d ds rest hruns _ ih =>
      rw [hruns] at ih
      rcases List.mem_cons.mp hr with rfl | hr
      · exact isRun_singleton c
      · exact ih r hr
  | case4 c cs _ ih =>
      rcases List.mem_cons.mp hr with rfl | hr
      · exact isRun_singleton c
      · exact ih r hr

/-- Pieces read off a text, and the runs of what is left. -/
structure Splits (whole : Text) (ps : List Piece) (rest : List Text) : Prop where
  texts : Piece.texts ps ++ rest.flatten = whole
  sound : ∀ p ∈ ps, p.IsSound
  runs : ∀ r ∈ rest, IsRun r

theorem Splits.refl {rs : List Text} (hrs : ∀ r ∈ rs, IsRun r) : Splits rs.flatten [] rs :=
  ⟨rfl, List.forall_mem_nil _, hrs⟩

/-- One more piece at the start. -/
theorem Splits.cons {p : Piece} {whole : Text} {ps : List Piece} {rest : List Text}
    (hp : p.IsSound) (h : Splits whole ps rest) : Splits (p.text ++ whole) (p :: ps) rest := by
  refine ⟨?_, List.forall_mem_cons.mpr ⟨hp, h.sound⟩, h.runs⟩
  rw [Piece.texts_cons, List.append_assoc, h.texts]

/-- How the pieces of a header are taken off runs, run by run, and the runs that they leave. -/
inductive Takes : List Text → List Piece → List Text → Prop
  | stop (rs : List Text) : Takes rs [] rs
  | blank {r : Text} {rs : List Text} {ps : List Piece} {rest : List Text}
      (hr : isBlankRun r = true) (h : Takes rs ps rest) : Takes (r :: rs) (.gap r :: ps) rest
  | sign {op : Text} {rs : List Text} {ps : List Piece} {rest : List Text}
      (hop : op ∈ [['('], [','], [')']]) (h : Takes rs ps rest) :
      Takes (op :: rs) (.lexeme .operator op :: ps) rest
  | parameter (scope : Scope) (r name : Text) {rs : List Text} {ps : List Piece} {rest : List Text}
      (hr : Shape.startsIdentifier r = true) (hname : Shape.startsIdentifier name = true)
      (h : Takes rs ps rest) :
      Takes (r :: ['.'] :: name :: rs) (.lexeme (.scopePrefix scope) r :: .lexeme .operator ['.']
        :: .lexeme (.parameter scope) name :: ps) rest

/-- What is taken after what was taken is taken from the whole. -/
theorem Takes.trans {rs mid rest : List Text} {ps qs : List Piece} (h : Takes rs ps mid)
    (h' : Takes mid qs rest) : Takes rs (ps ++ qs) rest := by
  induction h with
  | stop rs => exact h'
  | blank hr _ ih => exact .blank hr (ih h')
  | sign hop _ ih => exact .sign hop (ih h')
  | parameter scope r name hr hname _ ih => exact .parameter scope r name hr hname (ih h')

/-- Blanks are skipped into a gap. -/
theorem takes_skipBlanks (rs : List Text) :
    Takes rs (Piece.gaps (skipBlanks rs).1) (skipBlanks rs).2 := by
  cases rs with
  | nil => exact .stop []
  | cons r rs =>
      by_cases hblank : isBlankRun r = true
      · rw [skipBlanks, if_pos hblank]
        cases r with
        | nil => exact absurd hblank Bool.false_ne_true
        | cons a r => exact .blank hblank (.stop rs)
      · rw [skipBlanks, if_neg hblank]
        exact .stop (r :: rs)

/-- Parameters are taken from the runs, piece by piece. -/
theorem takes_of_parameters {parenthesized : Bool} {rs : List Text} {ps : List Piece}
    {rest : List Text} (h : parameters parenthesized rs = some (ps, rest)) :
    Takes rs ps rest := by
  -- a parameter takes three runs at once, so the induction is on how many there are
  induction hlength : rs.length using Nat.strongRecOn generalizing rs ps rest with
  | ind n ih =>
      cases rs with
      | nil =>
          rw [parameters] at h
          cases parenthesized with
          | true => exact nomatch h
          | false =>
              obtain ⟨rfl, rfl⟩ := Prod.mk.inj (Option.some.inj h)
              exact .stop []
      | cons r rs =>
          rw [List.length_cons] at hlength
          unfold parameters at h
          split at h
          · next hblank =>
              obtain ⟨⟨ps', rest'⟩, hrest, heq⟩ := Option.map_eq_some_iff.mp h
              obtain ⟨rfl, rfl⟩ := Prod.mk.inj heq
              exact .blank hblank (ih rs.length (by omega) hrest rfl)
          · split at h
            · next hcomma =>
                obtain ⟨⟨ps', rest'⟩, hrest, heq⟩ := Option.map_eq_some_iff.mp h
                obtain ⟨rfl, rfl⟩ := Prod.mk.inj heq
                rw [Bool.and_eq_true, beq_iff_eq] at hcomma
                rw [hcomma.2]
                exact .sign (by decide) (ih rs.length (by omega) hrest rfl)
            · split at h
              · next hclose =>
                  obtain ⟨rfl, rfl⟩ := Prod.mk.inj (Option.some.inj h)
                  rw [Bool.and_eq_true, beq_iff_eq] at hclose
                  rw [hclose.2]
                  exact .sign (by decide) (.stop _)
              · split at h
                · rename_i hstart
                  split at h
                  · next scope dot name rs' _ =>
                      split at h
                      · next hdot =>
                          obtain ⟨⟨ps', rest'⟩, hrest, heq⟩ := Option.map_eq_some_iff.mp h
                          obtain ⟨rfl, rfl⟩ := Prod.mk.inj heq
                          rw [Bool.and_eq_true, beq_iff_eq] at hdot
                          rw [hdot.1]
                          simp only [List.length_cons] at hlength
                          exact .parameter scope r name hstart hdot.2
                            (ih rs'.length (by omega) hrest rfl)
                      · exact absurd h (Option.some_ne_none _).symm
                  · exact absurd h (Option.some_ne_none _).symm
                · split at h
                  · exact absurd h (Option.some_ne_none _).symm
                  · obtain ⟨rfl, rfl⟩ := Prod.mk.inj (Option.some.inj h)
                    exact .stop _

/-- How a header line is taken apart: the name, then a gap, an opening parenthesis if there is one,
    the parameters and another gap, and last a colon that closes it. -/
theorem takes_of_ofText? {t : Text} {h : Header} (hh : ofText? t = some h) :
    h.name = Shape.word t ∧ ∃ rest : List Text,
      Takes (runs (t.drop h.name.length)) h.middle rest
        ∧ Shape.isClosingColon rest.flatten = true := by
  have hgap := takes_skipBlanks (runs (t.drop (Shape.word t).length))
  unfold ofText? at hh
  dsimp only at hh
  split at hh
  · exact nomatch hh
  · rename_i parts rs' hparts
    split at hh
    · rename_i hcolon
      rw [← Option.some.inj hh]
      refine ⟨rfl, _, ?_, hcolon⟩
      -- with and without the parenthesis, each reader starts at the runs the one before has left
      split at hparts
      · rename_i rs hopen
        have hopening : Takes (skipBlanks (runs (t.drop (Shape.word t).length))).2
            [.lexeme .operator ['(']] rs := by
          rw [hopen]
          exact .sign (by decide) (.stop rs)
        exact ((hgap.trans hopening).trans (takes_of_parameters hparts)).trans (takes_skipBlanks rs')
      · rw [List.append_nil]
        exact (hgap.trans (takes_of_parameters hparts)).trans (takes_skipBlanks rs')
    · exact nomatch hh

/-- The pieces of a header are read off the runs, whatever stops them. -/
theorem Takes.splits {rs : List Text} {ps : List Piece} {rest : List Text}
    (h : Takes rs ps rest) (hrs : ∀ r ∈ rs, IsRun r) : Splits rs.flatten ps rest := by
  induction h with
  | stop rs => exact Splits.refl hrs
  | @blank r rs ps rest hblank _ ih =>
      obtain ⟨hr, hrs'⟩ := List.forall_mem_cons.mp hrs
      exact Splits.cons (p := .gap r) (hr.2 hblank) (ih hrs')
  | @sign op rs ps rest _ _ ih =>
      obtain ⟨hr, hrs'⟩ := List.forall_mem_cons.mp hrs
      exact Splits.cons (p := .lexeme .operator op) hr.1 (ih hrs')
  | @parameter scope r name rs ps rest _ _ _ ih =>
      obtain ⟨hr, hdot, hname, hrs'⟩ : IsRun r ∧ IsRun ['.'] ∧ IsRun name ∧ ∀ r ∈ rs, IsRun r := by
        simpa only [List.forall_mem_cons] using hrs
      exact Splits.cons (p := .lexeme (.scopePrefix scope) r) hr.1
        (Splits.cons (p := .lexeme .operator ['.']) hdot.1
          (Splits.cons (p := .lexeme (.parameter scope) name) hname.1 (ih hrs')))

/-- A header is its name, then what stands between, then a closing colon. -/
theorem ofText?_splits {t : Text} {h : Header} (hh : ofText? t = some h) :
    h.name = Shape.word t ∧ ∃ rs : List Text,
      Splits (t.drop h.name.length) h.middle rs ∧ Shape.isClosingColon rs.flatten = true := by
  obtain ⟨hname, rest, htakes, hcolon⟩ := takes_of_ofText? hh
  have hsplits := htakes.splits isRun_of_mem_runs
  rw [runs_flatten] at hsplits
  exact ⟨hname, rest, hsplits, hcolon⟩

end Header

namespace Scan

/-! ## What the matchers cut -/

/-- A cut that begins a text: sound pieces that have characters, those at the start of the text. -/
structure Cut.Begins (cut : Cut) (t : Text) : Prop where
  sound : ∀ p ∈ cut.pieces, p.IsSound
  start : Piece.texts cut.pieces <+: t
  moves : Piece.texts cut.pieces ≠ []

variable {c : Context} {t : Text} {cut : Cut}

/-- One lexeme begins a text when its characters do. -/
theorem begins_of_lexeme {k : Kind} {u : Text} {s : State} (hu : u <+: t) (hne : u ≠ []) :
    (⟨[.lexeme k u], s⟩ : Cut).Begins t := by
  refine ⟨List.forall_mem_singleton.mpr hne, ?_, ?_⟩
  · rw [Piece.texts_cons, Piece.texts_nil, List.append_nil]
    exact hu
  · rw [Piece.texts_cons, Piece.texts_nil, List.append_nil]
    exact hne

/-- A lexeme in front of other pieces begins a text when they begin what follows it. -/
theorem begins_cons {k : Kind} {u : Text} {ps : List Piece} {s : State} (hu : u <+: t)
    (hne : u ≠ []) (hsound : ∀ p ∈ ps, p.IsSound) (hps : Piece.texts ps <+: t.drop u.length) :
    (⟨.lexeme k u :: ps, s⟩ : Cut).Begins t := by
  refine ⟨List.forall_mem_cons.mpr ⟨hne, hsound⟩, Shape.append_prefix hu hps, ?_⟩
  exact List.append_ne_nil_of_left_ne_nil hne _

/-- A comment through the end of the row is all of it. -/
theorem texts_restAsComment (t : Text) : Piece.texts (restAsComment t) = t := by
  rw [restAsComment, Piece.texts_cons, Piece.texts_gaps]
  exact (trimEnd_append_drop t).1

variable {a : Char} {rest : Text}

/-- A comment and the blanks behind it are all the rest. -/
theorem restAsComment_begins {s : State} (ha : isBlank a = false) :
    (⟨restAsComment (a :: rest), s⟩ : Cut).Begins (a :: rest) := by
  refine ⟨List.forall_mem_cons.mpr ⟨trimEnd_ne_nil ha, ?_⟩, ?_, ?_⟩
  · exact Piece.isSound_gaps (trimEnd_append_drop (a :: rest)).2
  · exact (texts_restAsComment (a :: rest)).symm ▸ List.prefix_rfl
  · rw [texts_restAsComment]
    exact List.cons_ne_nil _ _

/-- A comment from an earlier row stands at the start. -/
theorem openComment_begins (ha : isBlank a = false) (h : openComment c (a :: rest) = some cut) :
    cut.Begins (a :: rest) := by
  unfold openComment at h
  split at h
  · split at h
    · rename_i closed hclosed
      rw [← Option.some.inj h]
      obtain ⟨hstart, hne⟩ := Shape.throughClose_prefix hclosed
      exact begins_of_lexeme hstart hne
    · rw [← Option.some.inj h]
      exact restAsComment_begins ha
  · exact nomatch h

theorem lineComment_begins (ha : isBlank a = false) (h : lineComment c (a :: rest) = some cut) :
    cut.Begins (a :: rest) := by
  unfold lineComment at h
  split at h
  · rw [← Option.some.inj h]
    exact restAsComment_begins ha
  · exact nomatch h

theorem blockComment_begins (ha : isBlank a = false) (h : blockComment c (a :: rest) = some cut) :
    cut.Begins (a :: rest) := by
  unfold blockComment at h
  split at h
  · rename_i rest' ht
    split at h
    · rename_i closed hclosed
      rw [← Option.some.inj h, ht]
      have hstart := (Shape.throughClose_prefix hclosed).1
      refine begins_of_lexeme ?_ (List.cons_ne_nil _ _)
      exact List.cons_prefix_cons.mpr ⟨rfl, List.cons_prefix_cons.mpr ⟨rfl, hstart⟩⟩
    · rw [← Option.some.inj h]
      exact restAsComment_begins ha
  · exact nomatch h

/-- A string stands at the start. -/
theorem stringLiteral_begins (h : stringLiteral c t = some cut) : cut.Begins t := by
  unfold stringLiteral at h
  split at h
  · rename_i rest
    rw [← Option.some.inj h]
    refine begins_of_lexeme ?_ (List.cons_ne_nil _ _)
    exact List.cons_prefix_cons.mpr ⟨rfl, Shape.stringTail_prefix rest⟩
  · exact nomatch h

theorem numberLiteral_begins (h : numberLiteral c t = some cut) : cut.Begins t := by
  unfold numberLiteral at h
  split at h
  · rename_i hdigit
    rw [← Option.some.inj h]
    exact begins_of_lexeme (Shape.number_prefix t) (Shape.number_ne_nil hdigit)
  · exact nomatch h

/-- The pieces of a header begin the line that it was read from. -/
theorem header_begins {header : Header} {k : Kind} {s : State}
    (hstart : Shape.startsIdentifier t = true) (hh : Header.ofText? t = some header) :
    (⟨header.pieces k, s⟩ : Cut).Begins t := by
  obtain ⟨hname, rs, hsplits, hcolon⟩ := Header.ofText?_splits hh
  obtain ⟨after, hafter⟩ := Shape.eq_cons_of_isClosingColon hcolon
  rw [Header.pieces, List.cons_append]
  refine begins_cons ?_ ?_ ?_ ?_
  · rw [hname]
    exact Shape.word_prefix t
  · rw [hname]
    exact Shape.word_ne_nil hstart
  · refine List.forall_mem_append.mpr ⟨hsplits.sound, ?_⟩
    exact List.forall_mem_singleton.mpr (List.cons_ne_nil _ _)
  · rw [← hsplits.texts, hafter, Piece.texts_append]
    exact (List.prefix_append_right_inj _).mpr ⟨after, rfl⟩

/-- A header stands at the start: its name, what is between, its colon. -/
theorem threadHeader_begins (h : threadHeader c t = some cut) : cut.Begins t := by
  unfold threadHeader at h
  split at h
  · rename_i hcond
    have hstart : Shape.startsIdentifier t = true := (Bool.and_eq_true_iff.mp hcond).2
    split at h
    · exact nomatch h
    · rename_i header hheader
      split at h
      · exact nomatch h
      · split at h
        · rw [← Option.some.inj h]
          exact header_begins hstart hheader
        · rw [← Option.some.inj h]
          exact header_begins hstart hheader
  · exact nomatch h

/-- So does a label with its colon. -/
theorem labelDefinition_begins (h : labelDefinition c t = some cut) : cut.Begins t := by
  unfold labelDefinition at h
  split at h
  · rename_i hcond
    have hstart : Shape.startsIdentifier t = true := (Bool.and_eq_true_iff.mp hcond).2
    dsimp only at h
    split at h
    · rename_i hlabel
      obtain ⟨after, hafter⟩ := Shape.eq_cons_of_isClosingColon (Bool.and_eq_true_iff.mp hlabel).1
      rw [← Option.some.inj h, Context.keep, List.cons_append]
      refine begins_cons (Shape.word_prefix t) (Shape.word_ne_nil hstart) ?_ ?_
      · refine List.forall_mem_append.mpr ⟨Piece.isSound_gaps ?_, ?_⟩
        · intro d hd
          exact List.all_eq_true.mp List.all_takeWhile d hd
        · exact List.forall_mem_singleton.mpr (List.cons_ne_nil _ _)
      · rw [Piece.texts_append, Piece.texts_gaps]
        refine Shape.append_prefix (List.takeWhile_prefix _) ?_
        rw [List.drop_drop, hafter]
        exact ⟨after, rfl⟩
    · exact nomatch h
  · exact nomatch h

/-- So does a reserved word, behind a number sign or not. -/
theorem reservedWord_begins (h : reservedWord c t = some cut) : cut.Begins t := by
  unfold reservedWord at h
  split at h
  · rename_i rest
    dsimp only at h
    split at h
    · rw [← Option.some.inj h]
      refine begins_of_lexeme ?_ (List.cons_ne_nil _ _)
      exact List.cons_prefix_cons.mpr ⟨rfl, Shape.word_prefix rest⟩
    · exact nomatch h
  · dsimp only at h
    split at h
    · rename_i hcond
      rw [Bool.and_eq_true, Bool.and_eq_true] at hcond
      have hne := Shape.word_ne_nil hcond.1.1
      split at h
      · rw [← Option.some.inj h]
        exact begins_of_lexeme (Shape.word_prefix t) hne
      · rw [← Option.some.inj h]
        exact begins_of_lexeme (Shape.word_prefix t) hne
    · exact nomatch h

theorem scopeWord_begins (h : scopeWord c t = some cut) : cut.Begins t := by
  unfold scopeWord at h
  dsimp only at h
  split at h
  · split at h
    · rename_i hcond
      rw [← Option.some.inj h]
      exact begins_of_lexeme (Shape.word_prefix t)
        (Shape.word_ne_nil (Bool.and_eq_true_iff.mp hcond).1)
    · exact nomatch h
  · exact nomatch h

/-- A dot and the name behind it stand at the start. -/
theorem dottedName_begins (h : dottedName c t = some cut) : cut.Begins t := by
  unfold dottedName at h
  split at h
  · rename_i rest
    split at h
    · rename_i hstart
      obtain ⟨kind, -, rfl⟩ := Option.map_eq_some_iff.mp h
      refine begins_cons ⟨rest, rfl⟩ (List.cons_ne_nil _ _) ?_ ?_
      · exact List.forall_mem_singleton.mpr (Shape.word_ne_nil hstart)
      · rw [Piece.texts_cons, Piece.texts_nil, List.append_nil]
        exact Shape.word_prefix rest
    · exact nomatch h
  · exact nomatch h

/-- The name after `::`, if there is one, begins what stands there. -/
theorem crossName_begins (t : Text) :
    (∀ p ∈ crossName t, p.IsSound) ∧ Piece.texts (crossName t) <+: t := by
  unfold crossName
  split
  · rename_i hstart
    refine ⟨List.forall_mem_singleton.mpr (Shape.word_ne_nil hstart), ?_⟩
    rw [Piece.texts_cons, Piece.texts_nil, List.append_nil]
    exact Shape.word_prefix t
  · exact ⟨List.forall_mem_nil _, List.nil_prefix⟩

/-- So does a path, with two colons and a name behind it or not. -/
theorem pathReference_begins (h : pathReference c t = some cut) : cut.Begins t := by
  unfold pathReference at h
  split at h
  · exact nomatch h
  · rename_i path hpath
    obtain ⟨hstart, hne⟩ := Shape.path?_prefix hpath
    split at h
    · rename_i rest hdrop
      obtain ⟨hsound, hname⟩ := crossName_begins rest
      rw [← Option.some.inj h]
      refine begins_cons hstart hne (List.forall_mem_cons.mpr ⟨List.cons_ne_nil _ _, hsound⟩) ?_
      rw [hdrop]
      exact (List.prefix_append_right_inj [':', ':']).mpr hname
    · rw [← Option.some.inj h]
      exact begins_of_lexeme hstart hne

theorem plainWord_begins (h : plainWord c t = some cut) : cut.Begins t := by
  unfold plainWord at h
  split at h
  · rename_i hstart
    rw [← Option.some.inj h]
    exact begins_of_lexeme (Shape.word_prefix t) (Shape.word_ne_nil hstart)
  · exact nomatch h

theorem operatorSign_begins (h : operatorSign c t = some cut) : cut.Begins t := by
  obtain ⟨op, hop, rfl⟩ := Option.map_eq_some_iff.mp h
  obtain ⟨hstart, hne⟩ := Shape.operator?_prefix hop
  exact begins_of_lexeme hstart hne

/-- What holds of every matcher's answer and of a stray character holds of every cut. -/
theorem cut_induction {P : Cut → Prop} (c : Context) (t : Text)
    (hm : ∀ m ∈ matchers, ∀ cut, m c t = some cut → P cut)
    (hstray : P (c.keep [.lexeme .stray (t.take 1)])) : P (c.cut t) := by
  unfold Context.cut
  cases hfind : matchers.findSome? fun m => m c t with
  | none => exact hstray
  | some cut =>
      obtain ⟨m, hmem, hcut⟩ := List.exists_of_findSome?_eq_some hfind
      exact hm m hmem cut hcut

/-- Every cut at a character that is not blank begins the text. -/
theorem cut_begins (c : Context) (ha : isBlank a = false) :
    (c.cut (a :: rest)).Begins (a :: rest) := by
  refine cut_induction (P := fun cut => cut.Begins (a :: rest)) c (a :: rest) ?_ ?_
  · intro m hm cut h
    simp only [matchers, List.mem_cons, List.not_mem_nil, or_false] at hm
    rcases hm with rfl | rfl | rfl | rfl | rfl | rfl | rfl | rfl | rfl | rfl | rfl | rfl | rfl
    · exact openComment_begins ha h
    · exact lineComment_begins ha h
    · exact blockComment_begins ha h
    · exact stringLiteral_begins h
    · exact numberLiteral_begins h
    · exact threadHeader_begins h
    · exact labelDefinition_begins h
    · exact reservedWord_begins h
    · exact scopeWord_begins h
    · exact dottedName_begins h
    · exact pathReference_begins h
    · exact plainWord_begins h
    · exact operatorSign_begins h
  · exact begins_of_lexeme (List.take_prefix 1 (a :: rest)) (List.cons_ne_nil _ _)

/-! ## The pieces of a row -/

/-- What is covered to the end is not cut again. -/
theorem cutFrom_of_length_le (c : Context) {covered : Nat} {t : Text} (h : t.length ≤ covered) :
    cutFrom c covered t = c := by
  induction t generalizing covered with
  | nil => rw [cutFrom]
  | cons a rest ih =>
      cases covered with
      | zero => exact absurd h (Nat.not_succ_le_zero _)
      | succ covered => exact ih (Nat.le_of_succ_le_succ h)

/-- Reading on adds the characters that are not covered yet, in sound pieces. -/
theorem cutFrom_tiles (c : Context) (covered : Nat) (t : Text) (hc : ∀ p ∈ c.done, p.IsSound) :
    Piece.texts (cutFrom c covered t).done.reverse = Piece.texts c.done.reverse ++ t.drop covered
      ∧ ∀ p ∈ (cutFrom c covered t).done, p.IsSound := by
  fun_induction cutFrom c covered t with
  | case1 c covered => exact ⟨by rw [List.drop_nil, List.append_nil], hc⟩
  | case2 c covered _ rest ih => exact ih hc
  | case3 c a rest ha ih =>
      obtain ⟨htexts, hsound⟩ :=
        ih (List.forall_mem_cons.mpr ⟨by simpa [Piece.IsSound] using ha, hc⟩)
      refine ⟨?_, hsound⟩
      rw [htexts]
      simp [Context.advance, Context.keep, Piece.text]
  | case4 c a rest ha next ih =>
      have hbegins : next.Begins (a :: rest) := cut_begins c (by simpa using ha)
      obtain ⟨htexts, hsound⟩ := ih (by
        refine List.forall_mem_append.mpr ⟨?_, hc⟩
        intro p hp
        exact hbegins.sound p (List.mem_reverse.mp hp))
      refine ⟨?_, hsound⟩
      -- the cut takes at least the character it starts at, and the rest of it is covered
      obtain ⟨n, hn⟩ : ∃ n, Piece.width next.pieces = n + 1 := by
        refine Nat.exists_eq_succ_of_ne_zero ?_
        rw [Piece.width_eq]
        exact fun h => hbegins.moves (List.length_eq_zero_iff.mp h)
      have hrest : rest.drop (Piece.width next.pieces - 1)
          = (a :: rest).drop (Piece.texts next.pieces).length := by
        rw [← Piece.width_eq, hn]
        rfl
      rw [htexts, hrest]
      simp only [Context.advance, List.reverse_append, List.reverse_reverse, Piece.texts_append,
        List.append_assoc, List.drop_zero]
      rw [List.prefix_iff_eq_append.mp hbegins.start]

/-- The pieces of a row are the row again, lexemes with characters and gaps of blanks. -/
theorem cutRow_tiles (s : State) (row : Text) :
    Piece.texts (cutRow s row).pieces = row ∧ ∀ p ∈ (cutRow s row).pieces, p.IsSound := by
  obtain ⟨htexts, hsound⟩ := cutFrom_tiles ⟨s, []⟩ 0 row (List.forall_mem_nil _)
  refine ⟨htexts, ?_⟩
  intro p hp
  exact hsound p (List.mem_reverse.mp hp)

end Scan

end ScriptAtlas
