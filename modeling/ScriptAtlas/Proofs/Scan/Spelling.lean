import ScriptAtlas.Proofs.Scan.Forms

/-! # Spelling — how pieces are written, and what follows them

    A cut looks at the characters ahead, and some of what it sees lies behind its
    own pieces: a name goes on as long as it can, an operator is the longest one,
    a string or comment that is not closed takes the rest of the row.  The route:

    * the shapes say what they end with, and what they stop at;
    * hence each matcher's cut is spelled in one of eleven ways, given the text
      that follows it (`Spelling`);
    * hence so is every cut, and it leaves no comment open unless nothing follows
      (`cut_spelled`). -/

namespace ScriptAtlas

open Vocabulary Text

/-- A name that is written out: it goes on as long as it can. -/
structure IsName (u v : Text) : Prop where
  start : Shape.startsIdentifier u = true
  chars : ∀ a ∈ u, isIdentifierChar a = true
  stops : v.head?.any isIdentifierChar = false

/-- A name starts with a character of names. -/
theorem IsName.head?_any {u v : Text} (h : IsName u v) :
    (u ++ v).head?.any isIdentifierChar = true := by
  cases u with
  | nil => exact absurd h.start Bool.false_ne_true
  | cons a u => exact h.chars a List.mem_cons_self

theorem IsName.startsIdentifier_append {u v : Text} (h : IsName u v) :
    Shape.startsIdentifier (u ++ v) = true := by
  cases u with
  | nil => exact absurd h.start Bool.false_ne_true
  | cons a u => exact h.start

/-- A name is the word at the start of its text. -/
theorem IsName.word_append {u v : Text} (h : IsName u v) : Shape.word (u ++ v) = u := by
  have hrest : v.takeWhile isIdentifierChar = [] := by
    cases v with
    | nil => rfl
    | cons a v => exact List.takeWhile_cons_of_neg (Bool.eq_false_iff.mp h.stops)
  rw [Shape.word, List.takeWhile_append_of_pos h.chars, hrest, List.append_nil]

/-- The characters of a script path, which starts like a name or with a dot. -/
structure IsPath (u : Text) : Prop where
  chars : ∀ a ∈ u, isPathChar a = true
  start : (u.head?.any fun a => isIdentifierStart a || a == '.') = true

/-- What follows the characters that pass a test starts with one that does not. -/
theorem any_head?_of_takeWhile {p : Char → Bool} {t v : Text} (h : t.takeWhile p ++ v = t) :
    v.head?.any p = false := by
  have hv : v = t.dropWhile p :=
    List.append_cancel_left (h.trans List.takeWhile_append_dropWhile.symm)
  have hstop := List.head?_dropWhile_not p t
  rw [← hv] at hstop
  cases v with
  | nil => rfl
  | cons a v => exact hstop

namespace Shape

/-- The word at the start of a text is a name, if an identifier starts there. -/
theorem isName_word {t v : Text} (hstart : startsIdentifier t = true) (hv : word t ++ v = t) :
    IsName (word t) v := by
  refine ⟨?_, isIdentifierChar_of_mem_word, any_head?_of_takeWhile hv⟩
  cases t with
  | nil => exact hstart
  | cons a rest =>
      rw [startsIdentifier_cons] at hstart
      rw [word, List.takeWhile_cons_of_pos (isIdentifierChar_of_isIdentifierStart hstart),
        startsIdentifier_cons]
      exact hstart

/-- A string is closed by a quote, or takes everything. -/
theorem stringTail_ends (t : Text) : stringTail t = t ∨ ∃ body, stringTail t = body ++ ['"'] := by
  fun_induction stringTail t with
  | case1 => exact Or.inl rfl
  | case2 rest => exact Or.inr ⟨[], rfl⟩
  | case3 c rest ih =>
      rcases ih with ih | ⟨body, ih⟩
      · exact Or.inl (by rw [ih])
      · exact Or.inr ⟨'\\' :: c :: body, by rw [ih]; rfl⟩
  | case4 c rest _ _ ih =>
      rcases ih with ih | ⟨body, ih⟩
      · exact Or.inl (by rw [ih])
      · exact Or.inr ⟨c :: body, by rw [ih]; rfl⟩

/-- A comment that closes ends in a slash. -/
theorem throughClose_ends {t closed : Text} (h : throughClose t = some closed) :
    ∃ body, closed = body ++ ['/'] := by
  fun_induction throughClose t generalizing closed with
  | case1 => exact absurd h.symm (Option.some_ne_none closed)
  | case2 rest =>
      rw [← Option.some.inj h]
      exact ⟨['*'], rfl⟩
  | case3 c rest _ ih =>
      obtain ⟨inner, hinner, rfl⟩ := Option.map_eq_some_iff.mp h
      obtain ⟨body, rfl⟩ := ih hinner
      exact ⟨c :: body, rfl⟩

/-- A number is made of digits and a point. -/
theorem number_digits (t : Text) : ∀ a ∈ number t, a.isDigit = true ∨ a = '.' := by
  have hwhole : ∀ (u : Text), ∀ a ∈ u.takeWhile Char.isDigit, a.isDigit = true ∨ a = '.' :=
    fun u a ha => Or.inl (List.all_eq_true.mp List.all_takeWhile a ha)
  rw [number]
  split
  · split
    · refine List.forall_mem_append.mpr ⟨hwhole t, List.forall_mem_cons.mpr ⟨Or.inr rfl, hwhole _⟩⟩
    · exact hwhole t
  · exact hwhole t

/-- What is cut off as a path is one, and no name goes on behind it. -/
theorem isPath_of_path? {expected : Bool} {t path v : Text} (h : path? expected t = some path)
    (hv : path ++ v = t) : IsPath path ∧ v.head?.any isIdentifierChar = false := by
  simp only [path?, Option.ite_none_right_eq_some, Option.some.injEq, Bool.and_eq_true] at h
  obtain ⟨⟨⟨hstart, -⟩, -⟩, rfl⟩ := h
  have hstops : v.head?.any isPathChar = false := any_head?_of_takeWhile hv
  refine ⟨⟨List.all_eq_true.mp List.all_takeWhile, ?_⟩, ?_⟩
  · cases t with
    | nil => exact hstart
    | cons a rest =>
        have ha : isPathChar a = true := by
          rw [List.head?_cons, Option.any_some, Bool.or_eq_true] at hstart
          rcases hstart with h | h
          · rw [isPathChar, isIdentifierChar_of_isIdentifierStart h]
            rfl
          · rw [beq_iff_eq.mp h]
            decide
        rw [List.takeWhile_cons_of_pos ha]
        exact hstart
  · cases v with
    | nil => rfl
    | cons a rest =>
        rw [List.head?_cons, Option.any_some] at hstops ⊢
        rw [isPathChar] at hstops
        simp only [Bool.or_eq_false_iff] at hstops
        exact hstops.1.1.1.1

end Shape

theorem Piece.texts_singleton (k : Kind) (u : Text) : texts [lexeme k u] = u := List.append_nil u

/-! ## Names among pieces -/

/-- Whether lexemes of this kind are written like identifiers. -/
def Kind.isName : Kind → Bool
  | .threadName _ | .parameter _ | .labelDef | .keyword | .threadEnd | .scopePrefix _
  | .property _ _ | .member | .crossRefName | .word => true
  | _ => false

/-- The scope of a variable. -/
def Kind.variableScope? : Kind → Option Scope
  | .property scope _ => some scope
  | .parameter scope => some scope
  | _ => none

namespace Piece

/-- Pieces before the text `v` in which every name is written out. -/
def SpellOut (v : Text) : List Piece → Prop
  | [] => True
  | p :: ps =>
    (∀ k u, p = lexeme k u → k.isName = true → IsName u (texts ps ++ v)) ∧ SpellOut v ps

/-- Pieces in which a dot and a variable of the scope follow every scope. -/
def Lead : List Piece → Prop
  | [] => True
  | p :: ps =>
    (∀ scope u, p = lexeme (.scopePrefix scope) u → ∃ k name rest,
      ps = lexeme .operator ['.'] :: lexeme k name :: rest ∧ k.variableScope? = some scope)
    ∧ Lead ps

variable {v : Text} {ps qs : List Piece} {k : Kind} {u : Text}

/-- Pieces are spelled out in two steps, the first before the texts of the second. -/
theorem spellOut_append :
    SpellOut v (ps ++ qs) ↔ SpellOut (texts qs ++ v) ps ∧ SpellOut v qs := by
  induction ps with
  | nil => exact (and_iff_right trivial).symm
  | cons p ps ih =>
      rw [List.cons_append, SpellOut, SpellOut, ih, texts_append, List.append_assoc, and_assoc]

theorem spellOut_gap {g : Text} : SpellOut v (gap g :: ps) ↔ SpellOut v ps :=
  and_iff_right fun _ _ h => absurd h Piece.noConfusion

/-- A lexeme of another sort is no name. -/
theorem spellOut_other (hk : k.isName = false) :
    SpellOut v (lexeme k u :: ps) ↔ SpellOut v ps := by
  refine and_iff_right ?_
  intro k' u' heq hname
  obtain ⟨rfl, rfl⟩ := lexeme.inj heq
  exact absurd (hk.symm.trans hname) Bool.false_ne_true

/-- A name is spelled out before what ends it. -/
theorem spellOut_name (hu : IsName u (texts ps ++ v)) (hps : SpellOut v ps) :
    SpellOut v (lexeme k u :: ps) := by
  refine ⟨?_, hps⟩
  intro k' u' heq _
  obtain ⟨rfl, rfl⟩ := lexeme.inj heq
  exact hu

/-- Gaps have nothing to spell. -/
theorem spellOut_gaps (v g : Text) : SpellOut v (gaps g) := by
  rw [gaps]
  split
  · trivial
  · exact spellOut_gap.mpr trivial

/-- Pieces other than scopes lead nothing. -/
theorem lead_other {p : Piece} (hk : ∀ scope u, p ≠ lexeme (.scopePrefix scope) u) (hps : Lead ps) :
    Lead (p :: ps) :=
  ⟨fun scope u h => absurd h (hk scope u), hps⟩

theorem lead_gaps (g : Text) : Lead (gaps g) := by
  rw [gaps]
  split
  · trivial
  · exact lead_other (fun _ _ => Piece.noConfusion) trivial

/-- Dots behind scopes are kept when pieces follow. -/
theorem lead_append (hps : Lead ps) (hqs : Lead qs) : Lead (ps ++ qs) := by
  induction ps with
  | nil => exact hqs
  | cons p ps ih =>
      refine ⟨?_, ih hps.2⟩
      intro scope u hp
      obtain ⟨k, name, rest, rfl, hk⟩ := hps.1 scope u hp
      exact ⟨k, name, rest ++ qs, rfl, hk⟩

theorem lead_of_append (h : Lead (ps ++ qs)) : Lead qs := by
  induction ps with
  | nil => exact h
  | cons p ps ih => exact ih h.2

end Piece

namespace Header

/-- Runs of a text in which every word goes on as long as it can. -/
def WordsApart : List Text → Prop
  | [] => True
  | r :: rs =>
    (r.head?.any isIdentifierChar = true →
      (∀ a ∈ r, isIdentifierChar a = true) ∧ rs.flatten.head?.any isIdentifierChar = false)
    ∧ WordsApart rs

/-- No two runs of words meet: they would be one. -/
theorem wordsApart_runs (t : Text) : WordsApart (runs t) := by
  fun_induction runs t with
  | case1 => trivial
  | case2 c cs d ds rest hruns hsame ih =>
      rw [hruns] at ih
      refine ⟨?_, ih.2⟩
      intro hc
      have hd : isIdentifierChar d = true := by
        rw [sameRun, Bool.or_eq_true, Bool.and_eq_true, Bool.and_eq_true] at hsame
        rcases hsame with ⟨-, hd⟩ | ⟨hblank, -⟩
        · exact hd
        · exact absurd ((isBlank_of_isIdentifierChar hc).symm.trans hblank) Bool.false_ne_true
      obtain ⟨hchars, hstops⟩ := ih.1 hd
      exact ⟨List.forall_mem_cons.mpr ⟨hc, hchars⟩, hstops⟩
  | case3 c cs d ds rest hruns hsame ih =>
      rw [hruns] at ih
      refine ⟨?_, ih⟩
      intro hc
      refine ⟨List.forall_mem_singleton.mpr hc, ?_⟩
      show isIdentifierChar d = false
      rw [Bool.eq_false_iff]
      intro hd
      refine hsame ?_
      rw [sameRun, show isIdentifierChar c = true from hc, hd]
      rfl
  | case4 c cs hother ih =>
      refine ⟨?_, ih⟩
      intro hc
      refine ⟨List.forall_mem_singleton.mpr hc, ?_⟩
      -- a run has characters, so none is left
      cases hruns : runs cs with
      | nil => rfl
      | cons r rest =>
          cases r with
          | nil => exact absurd rfl (isRun_of_mem_runs [] (hruns ▸ List.mem_cons_self)).1
          | cons d ds => exact absurd hruns (hother d ds rest)

/-- A run that starts an identifier is a name, as no word follows it. -/
theorem WordsApart.isName {r : Text} {rs : List Text} (h : WordsApart (r :: rs))
    (hr : Shape.startsIdentifier r = true) : IsName r rs.flatten := by
  cases r with
  | nil => exact absurd hr Bool.false_ne_true
  | cons a r =>
      rw [Shape.startsIdentifier_cons] at hr
      obtain ⟨hchars, hstops⟩ := h.1 (isIdentifierChar_of_isIdentifierStart hr)
      exact ⟨by rw [Shape.startsIdentifier_cons]; exact hr, hchars, hstops⟩

/-- The scopes and parameters of a header are written out. -/
theorem Takes.spellOut {rs : List Text} {ps : List Piece} {rest : List Text}
    (h : Takes rs ps rest) (hrs : ∀ r ∈ rs, IsRun r) (hapart : WordsApart rs) :
    Piece.SpellOut rest.flatten ps := by
  induction h with
  | stop rs => trivial
  | blank _ _ ih => exact Piece.spellOut_gap.mpr (ih (List.forall_mem_cons.mp hrs).2 hapart.2)
  | sign _ _ ih =>
      exact (Piece.spellOut_other rfl).mpr (ih (List.forall_mem_cons.mp hrs).2 hapart.2)
  | @parameter scope r name rs ps rest hr hname h ih =>
      have hrs' : ∀ r ∈ rs, IsRun r := fun r hmem => hrs r (by simp [hmem])
      have hscope := hapart.isName hr
      have hvariable := hapart.2.2.isName hname
      rw [← (h.splits hrs').texts] at hvariable
      exact Piece.spellOut_name ⟨hscope.start, hscope.chars, rfl⟩ ((Piece.spellOut_other rfl).mpr
        (Piece.spellOut_name hvariable (ih hrs' hapart.2.2.2)))

/-- A scope that is taken has its dot. -/
theorem Takes.lead {rs : List Text} {ps : List Piece} {rest : List Text} (h : Takes rs ps rest) :
    Piece.Lead ps := by
  induction h with
  | stop rs => trivial
  | blank _ _ ih => exact Piece.lead_other (fun _ _ => Piece.noConfusion) ih
  | sign _ _ ih => exact Piece.lead_other (by simp) ih
  | @parameter scope r name rs ps rest _ _ _ ih =>
      refine ⟨?_, Piece.lead_other (by simp) (Piece.lead_other (by simp) ih)⟩
      intro scope' u heq
      obtain ⟨hkind, -⟩ := Piece.lexeme.inj heq
      obtain rfl := Kind.scopePrefix.inj hkind
      exact ⟨_, _, ps, rfl, rfl⟩

end Header

/-- Whether a lexeme mentions something that is defined elsewhere by its bare name. -/
def Kind.isMention : Kind → Bool
  | .word => true
  | .property _ _ => true
  | _ => false

theorem Piece.InHeader.isMention {k : Kind} {u : Text} (h : (Piece.lexeme k u).InHeader) :
    k.isMention = false := by
  cases h <;> rfl

namespace Scan

/-! ## How a cut is spelled -/

/-- The kinds of names that are cut alone. -/
inductive IsBareName : Kind → Prop
  | keyword : IsBareName .keyword
  | threadEnd : IsBareName .threadEnd
  | scopePrefix (scope : Scope) : IsBareName (.scopePrefix scope)
  | word : IsBareName .word

/-- How the pieces that are cut at a place are written, before the text `v`. -/
inductive Spelling (c : Context) (v : Text) : List Piece → Prop
  /-- A comment that starts here, or that an earlier row has opened; if it is not closed, nothing
      but blanks follows it. -/
  | comment {u tail : Text} (hblank : ∀ a ∈ tail, isBlank a = true)
      (hopen : c.state.inComment = true
        ∨ ∃ second rest, u ++ tail = '/' :: second :: rest ∧ (second = '/' ∨ second = '*'))
      (hend : v = [] ∨ ∃ body, u ++ tail = body ++ ['/']) :
      Spelling c v (.lexeme .comment u :: Piece.gaps tail)
  | string {rest : Text} (hend : v = [] ∨ ∃ body, '"' :: rest = body ++ ['"']) :
      Spelling c v [.lexeme .string ('"' :: rest)]
  | number {u : Text} (hdigits : ∀ a ∈ u, a.isDigit = true ∨ a = '.')
      (hstart : u.head?.any Char.isDigit = true) : Spelling c v [.lexeme .number u]
  /-- A header or a label, which starts a statement and ends with its colon. -/
  | heading {ps : List Piece} (hstart : c.atStatementStart = true)
      (hfree : ∀ k u, .lexeme k u ∈ ps → k.isMention = false) (hnames : Piece.SpellOut (':' :: v) ps)
      (hlead : Piece.Lead ps) : Spelling c v (ps ++ [.lexeme .operator [':']])
  /-- A name; a dot and another name follow a scope. -/
  | name {k : Kind} {u : Text} (hk : IsBareName k) (hname : IsName u v)
      (hdot : ∀ scope, k = .scopePrefix scope →
        ∃ rest, v = '.' :: rest ∧ Shape.startsIdentifier rest = true) :
      Spelling c v [.lexeme k u]
  | directive {u : Text} (hchars : ∀ a ∈ u, isIdentifierChar a = true)
      (hstops : v.head?.any isIdentifierChar = false) : Spelling c v [.lexeme .directive ('#' :: u)]
  /-- A name behind a dot; a property knows whether it is assigned to. -/
  | dotted {k : Kind} {u : Text} (hk : IsDotted k) (hname : IsName u v)
      (hwrite : ∀ scope write, k = .property scope write → write = Shape.assignsAfter 0 v) :
      Spelling c v [.lexeme .operator ['.'], .lexeme k u]
  | path {u : Text} (hpath : IsPath u) (hstops : v.head?.any isIdentifierChar = false) :
      Spelling c v [.lexeme .pathRef u]
  | cross {u : Text} {ps : List Piece} (hpath : IsPath u)
      (hname : ps = [] ∨ ∃ name, ps = [.lexeme .crossRefName name] ∧ IsName name v) :
      Spelling c v (.lexeme .pathRef u :: .lexeme .operator [':', ':'] :: ps)
  | operator {u : Text} (hop : Shape.operator? (u ++ v) = some u) :
      Spelling c v [.lexeme .operator u]
  | stray {a : Char} (hop : Shape.operator? (a :: v) = none) (hname : isIdentifierChar a = false)
      (hquote : a ≠ '"') : Spelling c v [.lexeme .stray [a]]

/-- A cut whose pieces are spelled before `v`, and that leaves no comment open unless nothing
    follows. -/
structure Cut.Spelled (cut : Cut) (c : Context) (v : Text) : Prop where
  pieces : Spelling c v cut.pieces
  closes : cut.state.inComment = true → v = []

variable {c : Context} {t v : Text} {cut : Cut}

/-- A cut of one piece takes its text off. -/
theorem append_eq_of_texts {k : Kind} {u : Text}
    (hv : Piece.texts [Piece.lexeme k u] ++ v = t) : u ++ v = t := by
  rw [Piece.texts_singleton] at hv
  exact hv

/-- A comment to the end of the row leaves nothing. -/
theorem eq_nil_of_restAsComment (hv : Piece.texts (restAsComment t) ++ v = t) : v = [] := by
  rw [texts_restAsComment] at hv
  exact List.append_right_eq_self.mp hv

/-- An open comment goes on in any text. -/
theorem exists_openComment (hin : c.state.inComment = true) (t : Text) :
    ∃ cut, openComment c t = some cut := by
  unfold openComment
  rw [if_pos hin]
  split
  · exact ⟨_, rfl⟩
  · exact ⟨_, rfl⟩

/-- Inside of a comment only comments are cut. -/
theorem openComment_spelled (hin : c.state.inComment = true) (h : openComment c t = some cut)
    (hv : Piece.texts cut.pieces ++ v = t) : cut.Spelled c v := by
  unfold openComment at h
  rw [if_pos hin] at h
  split at h
  · rename_i closed hclosed
    obtain ⟨body, hbody⟩ := Shape.throughClose_ends hclosed
    rw [← Option.some.inj h]
    exact ⟨.comment (List.forall_mem_nil _) (Or.inl hin)
        (Or.inr ⟨body, (List.append_nil _).trans hbody⟩),
      fun hopen => absurd hopen Bool.false_ne_true⟩
  · rw [← Option.some.inj h] at hv ⊢
    have hnil := eq_nil_of_restAsComment hv
    exact ⟨.comment (trimEnd_append_drop t).2 (Or.inl hin) (Or.inl hnil), fun _ => hnil⟩

/-- A cut that keeps the state leaves no comment open. -/
theorem keep_spelled {ps : List Piece} (hin : c.state.inComment = false) (h : Spelling c v ps) :
    (c.keep ps).Spelled c v :=
  ⟨h, fun hopen => absurd (hin.symm.trans hopen) Bool.false_ne_true⟩

theorem lineComment_spelled (hin : c.state.inComment = false) (h : lineComment c t = some cut)
    (hv : Piece.texts cut.pieces ++ v = t) : cut.Spelled c v := by
  unfold lineComment at h
  split at h
  · rw [← Option.some.inj h] at hv ⊢
    exact keep_spelled hin (.comment (trimEnd_append_drop _).2
      (Or.inr ⟨'/', _, (trimEnd_append_drop _).1, Or.inl rfl⟩)
      (Or.inl (eq_nil_of_restAsComment hv)))
  · exact nomatch h

theorem blockComment_spelled (hin : c.state.inComment = false) (h : blockComment c t = some cut)
    (hv : Piece.texts cut.pieces ++ v = t) : cut.Spelled c v := by
  unfold blockComment at h
  split at h
  · split at h
    · rename_i closed hclosed
      obtain ⟨body, rfl⟩ := Shape.throughClose_ends hclosed
      rw [← Option.some.inj h]
      exact keep_spelled hin (.comment (List.forall_mem_nil _)
        (Or.inr ⟨'*', body ++ ['/'], List.append_nil _, Or.inr rfl⟩)
        (Or.inr ⟨'/' :: '*' :: body, List.append_nil _⟩))
    · rw [← Option.some.inj h] at hv ⊢
      have hnil := eq_nil_of_restAsComment hv
      exact ⟨.comment (trimEnd_append_drop _).2
        (Or.inr ⟨'*', _, (trimEnd_append_drop _).1, Or.inr rfl⟩) (Or.inl hnil), fun _ => hnil⟩
  · exact nomatch h

/-- A string starts with its quote. -/
theorem stringLiteral_spelled (hin : c.state.inComment = false) (h : stringLiteral c t = some cut)
    (hv : Piece.texts cut.pieces ++ v = t) : cut.Spelled c v := by
  unfold stringLiteral at h
  split at h
  · rename_i rest
    rw [← Option.some.inj h] at hv ⊢
    refine keep_spelled hin (.string ?_)
    rcases Shape.stringTail_ends rest with hall | ⟨body, hbody⟩
    · have hv' := append_eq_of_texts hv
      rw [hall] at hv'
      exact Or.inl (List.append_right_eq_self.mp hv')
    · exact Or.inr ⟨'"' :: body, by rw [hbody]; rfl⟩
  · exact nomatch h

/-- A number is made of digits, and starts with one. -/
theorem numberLiteral_spelled (hin : c.state.inComment = false) (h : numberLiteral c t = some cut) :
    cut.Spelled c v := by
  unfold numberLiteral at h
  split at h
  · rename_i hdigit
    rw [← Option.some.inj h]
    refine keep_spelled hin (.number (Shape.number_digits t) ?_)
    obtain ⟨rest, hrest⟩ := Shape.number_prefix t
    cases hnumber : Shape.number t with
    | nil => exact absurd hnumber (Shape.number_ne_nil hdigit)
    | cons a u =>
        rw [← hrest, hnumber] at hdigit
        exact hdigit
  · exact nomatch h

/-- Between its name and its colon a header mentions nothing. -/
theorem isMention_header {header : Header} {nameKind : Kind} (hname : nameKind.isMention = false)
    (hh : Header.ofText? t = some header) {k : Kind} {u : Text}
    (hmem : .lexeme k u ∈ Piece.lexeme nameKind header.name :: header.middle) :
    k.isMention = false := by
  rcases List.mem_cons.mp hmem with heq | hmem
  · rw [(Piece.lexeme.inj heq).1]
    exact hname
  · exact (Header.inHeader_middle hh _ hmem).isMention

/-- The texts of a header: its name, what stands between, and the colon. -/
theorem header_texts {header : Header} {nameKind : Kind}
    (hv : Piece.texts (header.pieces nameKind) ++ v = t) :
    header.name ++ (Piece.texts header.middle ++ ':' :: v) = t := by
  rw [← hv, Header.pieces]
  simp [Piece.text]

/-- What the runs of a header leave is its colon and what follows the cut. -/
theorem header_rest {header : Header} {nameKind : Kind} {rest : List Text}
    (hsplits : Header.Splits (t.drop header.name.length) header.middle rest)
    (hv : Piece.texts (header.pieces nameKind) ++ v = t) : rest.flatten = ':' :: v := by
  have hdrop : t.drop header.name.length = Piece.texts header.middle ++ ':' :: v := by
    rw [← header_texts hv, List.drop_left]
  rw [hdrop] at hsplits
  exact List.append_cancel_left hsplits.texts

/-- A header is spelled like a heading, whatever its name is. -/
theorem header_spelled {header : Header} {nameKind : Kind} (hstart : c.atStatementStart = true)
    (hname : nameKind.isMention = false) (hscope : ∀ scope, nameKind ≠ .scopePrefix scope)
    (hstarts : Shape.startsIdentifier t = true) (hh : Header.ofText? t = some header)
    (hv : Piece.texts (header.pieces nameKind) ++ v = t) : Spelling c v (header.pieces nameKind) := by
  obtain ⟨hword, rest, htakes, -⟩ := Header.takes_of_ofText? hh
  have hsplits := htakes.splits Header.isRun_of_mem_runs
  have hmiddle := htakes.spellOut Header.isRun_of_mem_runs (Header.wordsApart_runs _)
  rw [Header.runs_flatten] at hsplits
  rw [header_rest hsplits hv] at hmiddle
  show Spelling c v ((.lexeme nameKind header.name :: header.middle) ++ [.lexeme .operator [':']])
  refine .heading hstart (fun _ _ => isMention_header hname hh) (Piece.spellOut_name ?_ hmiddle)
    (Piece.lead_other ?_ htakes.lead)
  · have hv' := header_texts hv
    rw [hword] at hv' ⊢
    exact Shape.isName_word hstarts hv'
  · intro scope u heq
    exact hscope scope (Piece.lexeme.inj heq).1

/-- The name of a header is a name, and so are its parameters. -/
theorem threadHeader_spelled (hin : c.state.inComment = false) (h : threadHeader c t = some cut)
    (hv : Piece.texts cut.pieces ++ v = t) : cut.Spelled c v := by
  unfold threadHeader at h
  split at h
  · rename_i hcond
    simp only [Bool.and_eq_true, List.isEmpty_iff] at hcond
    have hstart : c.atStatementStart = true := by
      rw [Context.atStatementStart, hcond.1.1, hcond.1.2]
      rfl
    split at h
    · exact nomatch h
    · rename_i header hheader
      split at h
      · exact nomatch h
      · split at h
        · rw [← Option.some.inj h] at hv ⊢
          exact keep_spelled hin
            (header_spelled hstart rfl (fun _ => Kind.noConfusion) hcond.2 hheader hv)
        · rw [← Option.some.inj h] at hv ⊢
          exact ⟨header_spelled hstart rfl (fun _ => Kind.noConfusion) hcond.2 hheader hv,
            fun hopen => absurd (hin.symm.trans hopen) Bool.false_ne_true⟩
  · exact nomatch h

/-- The name of a label is a name before its blanks and colon. -/
theorem labelDefinition_spelled (hin : c.state.inComment = false)
    (h : labelDefinition c t = some cut) (hv : Piece.texts cut.pieces ++ v = t) :
    cut.Spelled c v := by
  unfold labelDefinition at h
  split at h
  · rename_i hcond
    simp only [Bool.and_eq_true] at hcond
    dsimp only at h
    split at h
    · rw [← Option.some.inj h] at hv ⊢
      refine keep_spelled hin (.heading hcond.1.2 ?_ (Piece.spellOut_name ?_ (Piece.spellOut_gaps _ _))
        (Piece.lead_other (by simp) (Piece.lead_gaps _)))
      · intro k u hmem
        rcases List.mem_cons.mp hmem with heq | hmem
        · rw [(Piece.lexeme.inj heq).1]
          rfl
        · exact absurd (Piece.mem_gaps hmem) Piece.noConfusion
      · refine Shape.isName_word hcond.2 (Eq.trans ?_ hv)
        simp [Context.keep, Piece.text]
    · exact absurd h.symm (Option.some_ne_none _)
  · exact absurd h.symm (Option.some_ne_none _)

/-- A reserved word is a name, or one behind a number sign. -/
theorem reservedWord_spelled (hin : c.state.inComment = false) (h : reservedWord c t = some cut)
    (hv : Piece.texts cut.pieces ++ v = t) : cut.Spelled c v := by
  unfold reservedWord at h
  split at h
  · dsimp only at h
    split at h
    · rw [← Option.some.inj h] at hv ⊢
      have hv' := (List.cons.inj (append_eq_of_texts hv)).2
      exact keep_spelled hin (.directive Shape.isIdentifierChar_of_mem_word
        (any_head?_of_takeWhile hv'))
    · exact nomatch h
  · dsimp only at h
    split at h
    · rename_i hcond
      rw [Bool.and_eq_true, Bool.and_eq_true] at hcond
      split at h
      · rw [← Option.some.inj h] at hv ⊢
        exact ⟨.name .threadEnd (Shape.isName_word hcond.1.1 (append_eq_of_texts hv))
            (fun _ h => absurd h Kind.noConfusion),
          fun hopen => absurd (hin.symm.trans hopen) Bool.false_ne_true⟩
      · rw [← Option.some.inj h] at hv ⊢
        exact keep_spelled hin
          (.name .keyword (Shape.isName_word hcond.1.1 (append_eq_of_texts hv))
            (fun _ h => absurd h Kind.noConfusion))
    · exact nomatch h

/-- A scope is a name before a dot. -/
theorem scopeWord_spelled (hin : c.state.inComment = false) (h : scopeWord c t = some cut)
    (hv : Piece.texts cut.pieces ++ v = t) : cut.Spelled c v := by
  unfold scopeWord at h
  dsimp only at h
  split at h
  · rename_i rest _ hdrop
    split at h
    · rename_i hcond
      obtain ⟨hstart, hname⟩ := Bool.and_eq_true_iff.mp hcond
      rw [← Option.some.inj h] at hv ⊢
      have hv' := append_eq_of_texts hv
      refine keep_spelled hin (.name (.scopePrefix _) (Shape.isName_word hstart hv') ?_)
      intro _ _
      have hleft : (Shape.word t ++ v).drop (Shape.word t).length = v := List.drop_left
      rw [hv'] at hleft
      exact ⟨rest, hleft.symm.trans hdrop, hname⟩
    · exact nomatch h
  · exact nomatch h

/-- A property is a write when an assignment follows. -/
theorem write_of_dottedKind {previous : Option Piece} {afterName : Text} {scope : Scope}
    {write : Bool} (h : dottedKind previous afterName = some (.property scope write)) :
    write = Shape.assignsAfter 0 afterName := by
  unfold dottedKind at h
  split at h
  · exact (Kind.property.inj (Option.some.inj h)).2.symm
  · exact absurd (Option.some.inj h) Kind.noConfusion
  · exact absurd (Option.some.inj h) Kind.noConfusion
  · exact absurd (Option.some.inj h) Kind.noConfusion
  · exact absurd (Option.some.inj h) Kind.noConfusion
  · split at h
    · exact absurd (Option.some.inj h) Kind.noConfusion
    · exact nomatch h
  · exact nomatch h

/-- A dot comes before a name that nothing continues. -/
theorem dottedName_spelled (hin : c.state.inComment = false) (h : dottedName c t = some cut)
    (hv : Piece.texts cut.pieces ++ v = t) : cut.Spelled c v := by
  unfold dottedName at h
  split at h
  · rename_i rest
    split at h
    · rename_i hstart
      obtain ⟨kind, hkind, rfl⟩ := Option.map_eq_some_iff.mp h
      have hv' : Shape.word rest ++ v = rest := append_eq_of_texts (List.cons.inj hv).2
      refine keep_spelled hin (.dotted (isDotted_of_dottedKind hkind)
        (Shape.isName_word hstart hv') ?_)
      rintro scope write rfl
      have hdrop : (Shape.word rest ++ v).drop (Shape.word rest).length = v := List.drop_left
      rw [hv'] at hdrop
      rw [hdrop] at hkind
      exact write_of_dottedKind hkind
    · exact nomatch h
  · exact nomatch h

/-- The thread behind a path is a name, if there is one. -/
theorem crossName_spelled {rest : Text} (hv : Piece.texts (crossName rest) ++ v = rest) :
    crossName rest = []
      ∨ ∃ name, crossName rest = [.lexeme .crossRefName name] ∧ IsName name v := by
  unfold crossName at hv ⊢
  split at hv
  · rename_i hstart
    rw [if_pos hstart]
    exact Or.inr ⟨_, rfl, Shape.isName_word hstart (append_eq_of_texts hv)⟩
  · rename_i hstart
    rw [if_neg hstart]
    exact Or.inl rfl

/-- A path comes before two colons, or before no name. -/
theorem pathReference_spelled (hin : c.state.inComment = false) (h : pathReference c t = some cut)
    (hv : Piece.texts cut.pieces ++ v = t) : cut.Spelled c v := by
  unfold pathReference at h
  split at h
  · exact nomatch h
  · rename_i path hpath
    split at h
    · rename_i rest hdrop
      rw [← Option.some.inj h] at hv ⊢
      have hv' : path ++ (':' :: ':' :: (Piece.texts (crossName rest) ++ v)) = t := by
        rw [← hv]
        simp [Context.keep, Piece.text]
      have hrest : ':' :: ':' :: (Piece.texts (crossName rest) ++ v) = ':' :: ':' :: rest := by
        rw [← hdrop, ← hv', List.drop_left]
      have hcross := (List.cons.inj (List.cons.inj hrest).2).2
      exact keep_spelled hin (.cross (Shape.isPath_of_path? hpath hv').1 (crossName_spelled hcross))
    · rw [← Option.some.inj h] at hv ⊢
      obtain ⟨hpath', hstops⟩ := Shape.isPath_of_path? hpath (append_eq_of_texts hv)
      exact keep_spelled hin (.path hpath' hstops)

theorem plainWord_spelled (hin : c.state.inComment = false) (h : plainWord c t = some cut)
    (hv : Piece.texts cut.pieces ++ v = t) : cut.Spelled c v := by
  unfold plainWord at h
  split at h
  · rename_i hstart
    rw [← Option.some.inj h] at hv ⊢
    exact keep_spelled hin (.name .word (Shape.isName_word hstart (append_eq_of_texts hv))
      (fun _ h => absurd h Kind.noConfusion))
  · exact nomatch h

/-- An operator is spelled as it is cut. -/
theorem operatorSign_spelled (hin : c.state.inComment = false) (h : operatorSign c t = some cut)
    (hv : Piece.texts cut.pieces ++ v = t) : cut.Spelled c v := by
  obtain ⟨op, hop, rfl⟩ := Option.map_eq_some_iff.mp h
  rw [← append_eq_of_texts hv] at hop
  exact ⟨.operator hop, fun hopen => absurd (hin.symm.trans hopen) Bool.false_ne_true⟩

/-- A character that no matcher takes belongs to no name, string or operator. -/
theorem stray_spelled {a : Char} {rest : Text} (hin : c.state.inComment = false)
    (hnone : ∀ m ∈ matchers, m c (a :: rest) = none) :
    (c.keep [.lexeme .stray [a]]).Spelled c rest := by
  have hstring := hnone stringLiteral (by simp [matchers])
  have hnumber := hnone numberLiteral (by simp [matchers])
  have hword := hnone plainWord (by simp [matchers])
  have hoperator := hnone operatorSign (by simp [matchers])
  refine keep_spelled hin (.stray (Option.map_eq_none_iff.mp hoperator) ?_ ?_)
  · have hdigit : a.isDigit = false := by
      rw [numberLiteral, ite_eq_right_iff] at hnumber
      simpa using hnumber
    have hstart : isIdentifierStart a = false := by
      rw [plainWord, ite_eq_right_iff] at hword
      simpa [Shape.startsIdentifier] using hword
    rw [isIdentifierStart, Bool.or_eq_false_iff] at hstart
    rw [isIdentifierChar, Char.isAlphanum, hstart.1, hstart.2, hdigit]
    rfl
  · rintro rfl
    exact absurd hstring (Option.some_ne_none _)

/-- Every cut is spelled in one of these ways. -/
theorem cut_spelled (c : Context) {a : Char} {rest : Text}
    (hv : Piece.texts (c.cut (a :: rest)).pieces ++ v = a :: rest) :
    (c.cut (a :: rest)).Spelled c v := by
  unfold Context.cut at hv ⊢
  cases hfind : matchers.findSome? fun m => m c (a :: rest) with
  | none =>
      rw [hfind] at hv
      have hnone := List.findSome?_eq_none_iff.mp hfind
      have hin : c.state.inComment = false := by
        rw [Bool.eq_false_iff]
        intro hin
        obtain ⟨cut, hcut⟩ := exists_openComment hin (a :: rest)
        have hopen := hnone openComment (by simp [matchers])
        exact absurd (hcut.symm.trans hopen) (Option.some_ne_none _)
      obtain rfl : v = rest := (List.cons.inj hv).2
      exact stray_spelled hin hnone
  | some cut =>
      rw [hfind] at hv
      cases hin : c.state.inComment with
      | true =>
          -- the open comment comes before all else
          obtain ⟨cut', hcut'⟩ := exists_openComment hin (a :: rest)
          rw [matchers, List.findSome?_cons, hcut'] at hfind
          obtain rfl := Option.some.inj hfind
          exact openComment_spelled hin hcut' hv
      | false =>
          obtain ⟨m, hm, h⟩ := List.exists_of_findSome?_eq_some hfind
          simp only [matchers, List.mem_cons, List.not_mem_nil, or_false] at hm
          rcases hm with rfl | rfl | rfl | rfl | rfl | rfl | rfl | rfl | rfl | rfl | rfl | rfl | rfl
          · rw [openComment, hin] at h
            exact absurd h.symm (Option.some_ne_none _)
          · exact lineComment_spelled hin h hv
          · exact blockComment_spelled hin h hv
          · exact stringLiteral_spelled hin h hv
          · exact numberLiteral_spelled hin h
          · exact threadHeader_spelled hin h hv
          · exact labelDefinition_spelled hin h hv
          · exact reservedWord_spelled hin h hv
          · exact scopeWord_spelled hin h hv
          · exact dottedName_spelled hin h hv
          · exact pathReference_spelled hin h hv
          · exact plainWord_spelled hin h hv
          · exact operatorSign_spelled hin h hv

end Scan

end ScriptAtlas
