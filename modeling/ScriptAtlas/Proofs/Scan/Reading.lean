import ScriptAtlas.Proofs.Scan.Lowering
import ScriptAtlas.Proofs.Scan.Spelling
import ScriptAtlas.Proofs.Scan.ThreadExtent

/-! # Reading — a row is read cut by cut

    Knowing how a cut is spelled, one knows how a whole row is.  The route:

    * a row is read into its pieces cut by cut (`Reads`), and each cut leaves a
      place at which no name is cut in two (`Context.Parted`);
    * hence every lexeme of a row was cut at such a place (`Reads.exists_cut`);
    * a word is cut alone and a property is the last of its cut, so what is known
      of their cuts is known of them (`word_spelled`, `property_spelled`);
    * behind a lexeme, operators among the characters are operators among the
      lexemes (`Spelling.first`, `Heads.isSign_eq`). -/

namespace ScriptAtlas

open Vocabulary Text

namespace Scan

variable {c : Context} {t v : Text} {cut : Cut}

/-! ## A row, cut by cut -/

/-- How a text is read into pieces, from a place on. -/
inductive Reads : Context → Text → List Piece → Prop
  | nil (c : Context) : Reads c [] []
  | gap {c : Context} {a : Char} {t : Text} {ps : List Piece} (ha : isBlank a = true)
      (h : Reads (c.advance (c.keep [.gap [a]])) t ps) : Reads c (a :: t) (.gap [a] :: ps)
  | cut {c : Context} {a : Char} {rest v : Text} {ps : List Piece} (ha : isBlank a = false)
      (hv : Piece.texts (c.cut (a :: rest)).pieces ++ v = a :: rest)
      (h : Reads (c.advance (c.cut (a :: rest))) v ps) :
      Reads c (a :: rest) ((c.cut (a :: rest)).pieces ++ ps)

/-- What a cut leaves of the text, counted from its second character. -/
theorem drop_width_pred {a : Char} {rest : Text} (h : cut.Begins (a :: rest)) :
    Piece.texts cut.pieces ++ rest.drop (Piece.width cut.pieces - 1) = a :: rest := by
  obtain ⟨n, hn⟩ : ∃ n, Piece.width cut.pieces = n + 1 := by
    refine Nat.exists_eq_succ_of_ne_zero ?_
    rw [Piece.width_eq]
    exact fun hzero => h.moves (List.length_eq_zero_iff.mp hzero)
  have hrest : rest.drop (Piece.width cut.pieces - 1)
      = (a :: rest).drop (Piece.texts cut.pieces).length := by
    rw [← Piece.width_eq, hn]
    rfl
  rw [hrest]
  exact List.prefix_iff_eq_append.mp h.start

theorem done_advance (c : Context) (cut : Cut) :
    (c.advance cut).done.reverse = c.done.reverse ++ cut.pieces := by
  rw [Context.advance, List.reverse_append, List.reverse_reverse]

/-- Reading on is reading cut by cut. -/
theorem cutFrom_reads (c : Context) (covered : Nat) (t : Text) :
    ∃ ps, (cutFrom c covered t).done.reverse = c.done.reverse ++ ps
      ∧ Reads c (t.drop covered) ps := by
  fun_induction cutFrom c covered t with
  | case1 c covered =>
      rw [List.drop_nil]
      exact ⟨[], (List.append_nil _).symm, .nil c⟩
  | case2 c covered _ rest ih => exact ih
  | case3 c a rest ha ih =>
      obtain ⟨ps, hps, hreads⟩ := ih
      refine ⟨.gap [a] :: ps, ?_, .gap ha hreads⟩
      rw [hps, done_advance, List.append_assoc]
      rfl
  | case4 c a rest ha next ih =>
      obtain ⟨ps, hps, hreads⟩ := ih
      have ha' : isBlank a = false := Bool.eq_false_iff.mpr ha
      refine ⟨next.pieces ++ ps, ?_, .cut ha' (drop_width_pred (cut_begins c ha')) hreads⟩
      rw [hps, done_advance, List.append_assoc]

theorem cutRow_reads (s : State) (row : Text) : Reads ⟨s, []⟩ row (cutRow s row).pieces := by
  obtain ⟨ps, hps, hreads⟩ := cutFrom_reads ⟨s, []⟩ 0 row
  rw [cutRow, hps]
  exact hreads

theorem Reads.texts_eq {ps : List Piece} (h : Reads c t ps) : Piece.texts ps = t := by
  induction h with
  | nil c => rfl
  | gap _ _ ih => rw [Piece.texts_cons, ih]; rfl
  | cut _ hv _ ih => rw [Piece.texts_append, ih, hv]

end Scan

/-! ## Places between names -/

/-- Whether a text ends within a name: an identifier has started, and has not ended yet. -/
def insideName (u : Text) : Bool :=
  u.foldl (fun inside a => isIdentifierStart a || (inside && isIdentifierChar a)) false

theorem insideName_concat (u : Text) (a : Char) :
    insideName (u ++ [a]) = (isIdentifierStart a || (insideName u && isIdentifierChar a)) := by
  rw [insideName, List.foldl_append]
  rfl

/-- No name ends in a character of another sort. -/
theorem insideName_of_last {u : Text} {a : Char} (ha : isIdentifierChar a = false) :
    insideName (u ++ [a]) = false := by
  have hstart : isIdentifierStart a = false := by
    rw [Bool.eq_false_iff]
    intro hstart
    rw [isIdentifierChar_of_isIdentifierStart hstart] at ha
    exact Bool.false_ne_true ha.symm
  rw [insideName_concat, ha, hstart, Bool.and_false, Bool.or_false]

theorem isIdentifierChar_of_isDigit {a : Char} (h : a.isDigit = true) :
    isIdentifierChar a = true := by
  rw [isIdentifierChar, Char.isAlphanum, h, Bool.or_true]
  rfl

theorem isIdentifierStart_of_isDigit {a : Char} (h : a.isDigit = true) :
    isIdentifierStart a = false := by
  rw [isIdentifierStart, Bool.or_eq_false_iff, beq_eq_false_iff_ne]
  constructor
  · rw [Bool.eq_false_iff]
    intro halpha
    exact Bool.false_ne_true ((isDigit_of_isAlpha halpha).symm.trans h)
  · rintro rfl
    exact absurd h (by decide)

/-- No name starts within a number. -/
theorem insideName_number {x u : Text} (hx : insideName x = false)
    (hu : ∀ a ∈ u, a.isDigit = true ∨ a = '.') : insideName (x ++ u) = false := by
  induction u generalizing x with
  | nil =>
      rw [List.append_nil]
      exact hx
  | cons a u ih =>
      obtain ⟨ha, hu⟩ := List.forall_mem_cons.mp hu
      have hstart : isIdentifierStart a = false := by
        rcases ha with ha | rfl
        · exact isIdentifierStart_of_isDigit ha
        · decide
      rw [List.append_cons]
      refine ih ?_ hu
      rw [insideName_concat, hx, hstart, Bool.false_and, Bool.or_false]

/-- An operator has two characters, or one. -/
theorem Shape.operator?_cases {t op : Text} (h : operator? t = some op) :
    op ∈ wideOperators ∨ ∃ a ∈ narrowOperators, op = [a] := by
  rw [operator?] at h
  split at h
  · rename_i hmem
    rw [← Option.some.inj h]
    exact Or.inl (List.contains_iff_mem.mp hmem)
  · split at h
    · rename_i hmem
      rw [← Option.some.inj h]
      cases t with
      | nil => exact absurd hmem Bool.false_ne_true
      | cons a rest => exact Or.inr ⟨a, List.contains_iff_mem.mp hmem, rfl⟩
    · exact absurd h.symm (Option.some_ne_none op)

theorem Shape.isIdentifierChar_of_mem_operator {t op : Text} (h : operator? t = some op) :
    ∀ a ∈ op, isIdentifierChar a = false := by
  have hwide : (wideOperators.all fun op => op.all fun a => !isIdentifierChar a) = true := by
    decide
  have hnarrow : (narrowOperators.all fun a => !isIdentifierChar a) = true := by decide
  intro a ha
  rw [← Bool.not_eq_true']
  rcases operator?_cases h with hop | ⟨b, hb, rfl⟩
  · exact List.all_eq_true.mp (List.all_eq_true.mp hwide op hop) a ha
  · rw [List.mem_singleton.mp ha]
    exact List.all_eq_true.mp hnarrow b hb

namespace Scan

/-- A place at which no name is cut in two. -/
def Context.Parted (c : Context) (t : Text) : Prop :=
  insideName (Piece.texts c.done.reverse) = true → t.head?.any isIdentifierChar = false

variable {c : Context} {t v : Text} {cut : Cut}

theorem parted_afterGap {a : Char} (ha : isBlank a = true) :
    (c.advance (c.keep [.gap [a]])).Parted t := by
  intro hinside
  have hname : isIdentifierChar a = false := by
    rw [Bool.eq_false_iff]
    intro hname
    rw [isBlank_of_isIdentifierChar hname] at ha
    exact Bool.false_ne_true ha
  rw [done_advance, Piece.texts_append] at hinside
  exact absurd ((insideName_of_last hname).symm.trans hinside) Bool.false_ne_true

/-- Behind a cut no name is cut in two. -/
theorem Spelling.head?_of_insideName {ps : List Piece} {x : Text} (h : Spelling c v ps)
    (hx : insideName x = true → (Piece.texts ps ++ v).head?.any isIdentifierChar = false)
    (hinside : insideName (x ++ Piece.texts ps) = true) : v.head?.any isIdentifierChar = false := by
  -- no name goes on behind a character of another sort
  have hlast : ∀ body b, Piece.texts ps = body ++ [b] → isIdentifierChar b = true := by
    intro body b hbody
    by_contra hb
    rw [hbody, ← List.append_assoc, insideName_of_last (Bool.eq_false_iff.mpr hb)] at hinside
    exact Bool.false_ne_true hinside
  cases h with
  | comment _ _ hend =>
      rcases hend with rfl | ⟨body, hbody⟩
      · rfl
      · refine absurd (hlast body '/' ?_) (by decide)
        rw [Piece.texts_cons, Piece.texts_gaps]
        exact hbody
  | string hend =>
      rcases hend with rfl | ⟨body, hbody⟩
      · rfl
      · exact absurd (hlast body '"' ((Piece.texts_singleton _ _).trans hbody)) (by decide)
  | @number u hdigits hstart =>
      -- the digit that starts it shows that no name ran up to it
      have hfirst : (Piece.texts [.lexeme .number u] ++ v).head?.any isIdentifierChar = true := by
        cases u with
        | nil => exact absurd hstart Bool.false_ne_true
        | cons a u => exact isIdentifierChar_of_isDigit hstart
      have hbefore : insideName x = false := by
        rw [Bool.eq_false_iff]
        intro hbefore
        exact Bool.false_ne_true ((hx hbefore).symm.trans hfirst)
      rw [Piece.texts_singleton, insideName_number hbefore hdigits] at hinside
      exact absurd hinside Bool.false_ne_true
  | @heading ps _ _ _ _ =>
      exact absurd (hlast (Piece.texts ps) ':' (Piece.texts_append ps _)) (by decide)
  | name _ hname _ => exact hname.stops
  | directive _ hstops => exact hstops
  | dotted _ hname _ => exact hname.stops
  | path _ hstops => exact hstops
  | @cross u ps _ hname =>
      rcases hname with rfl | ⟨name, -, hname⟩
      · exact absurd (hlast (u ++ [':']) ':' (by simp [Piece.text])) (by decide)
      · exact hname.stops
  | @operator u hop =>
      have hne : u ≠ [] := (Shape.operator?_prefix hop).2
      have hb := hlast u.dropLast (u.getLast hne)
        (by rw [List.dropLast_concat_getLast, Piece.texts_singleton])
      rw [Shape.isIdentifierChar_of_mem_operator hop _ (List.getLast_mem hne)] at hb
      exact absurd hb Bool.false_ne_true
  | stray _ hname _ =>
      have hb := hlast [] _ rfl
      rw [hname] at hb
      exact absurd hb Bool.false_ne_true

theorem Context.Parted.afterCut {a : Char} {rest : Text} (h : c.Parted (a :: rest))
    (hv : Piece.texts (c.cut (a :: rest)).pieces ++ v = a :: rest) :
    (c.advance (c.cut (a :: rest))).Parted v := by
  intro hinside
  rw [done_advance, Piece.texts_append] at hinside
  refine (cut_spelled c hv).pieces.head?_of_insideName ?_ hinside
  rw [hv]
  exact h

/-- A cut of a row, at a place with the text `t` ahead; `v` follows it and is read into `later`. -/
structure IsCut (c : Context) (t v : Text) (later : List Piece) : Prop where
  parted : c.Parted t
  spelled : (c.cut t).Spelled c v
  texts : Piece.texts (c.cut t).pieces ++ v = t
  rest : Reads (c.advance (c.cut t)) v later

/-- Every lexeme that is read belongs to a cut. -/
theorem Reads.exists_cut {ps before after : List Piece} {k : Kind} {u : Text} (h : Reads c t ps)
    (hparted : c.Parted t) (hsplit : ps = before ++ .lexeme k u :: after) :
    ∃ c' t' v mid left later, IsCut c' t' v later
      ∧ (c'.cut t').pieces = mid ++ .lexeme k u :: left
      ∧ c.done.reverse ++ before = c'.done.reverse ++ mid ∧ after = left ++ later := by
  induction h generalizing before with
  | nil c => exact absurd hsplit (by simp)
  | @gap c a t ps ha h ih =>
      cases before with
      | nil => exact absurd (List.cons.inj hsplit).1 Piece.noConfusion
      | cons p before =>
          obtain ⟨rfl, hps⟩ := List.cons.inj hsplit
          obtain ⟨c', t', v, mid, left, later, hcut, hpieces, hbefore, hafter⟩ :=
            ih (parted_afterGap ha) hps
          rw [done_advance, List.append_assoc] at hbefore
          exact ⟨c', t', v, mid, left, later, hcut, hpieces, hbefore, hafter⟩
  | @cut c a rest v ps ha hv h ih =>
      rcases List.append_eq_append_iff.mp hsplit with ⟨mid, hbefore, hps⟩ | ⟨mid, hpieces, hps⟩
      · -- the lexeme stands behind this cut
        obtain ⟨c', t', v', mid', left, later, hcut, hpieces, hdone, hafter⟩ :=
          ih (hparted.afterCut hv) hps
        refine ⟨c', t', v', mid', left, later, hcut, hpieces, ?_, hafter⟩
        rw [← hdone, done_advance, hbefore, List.append_assoc]
      · cases mid with
        | nil =>
            have hps' : ps = [] ++ .lexeme k u :: after := hps.symm
            obtain ⟨c', t', v', mid', left, later, hcut, hpieces', hdone, hafter⟩ :=
              ih (hparted.afterCut hv) hps'
            refine ⟨c', t', v', mid', left, later, hcut, hpieces', ?_, hafter⟩
            rw [← hdone, done_advance, hpieces, List.append_nil, List.append_nil]
        | cons p mid =>
            obtain ⟨rfl, rfl⟩ := List.cons.inj hps
            exact ⟨c, a :: rest, v, before, mid, ps, ⟨hparted, cut_spelled c hv, hv, h⟩, hpieces,
              rfl, rfl⟩

/-- A row starts between names. -/
theorem parted_start (s : State) (row : Text) : (⟨s, []⟩ : Context).Parted row :=
  fun hinside => absurd hinside Bool.false_ne_true

/-- A place behind a lexeme of a row: no comment is open there, unless nothing follows. -/
structure Context.IsMidway (c : Context) (v : Text) : Prop where
  significant : c.done.any Piece.isSignificant = true
  closed : c.state.inComment = true → v = []

theorem Context.IsMidway.afterGap {a : Char} (h : c.IsMidway (a :: t)) :
    (c.advance (c.keep [.gap [a]])).IsMidway t :=
  ⟨h.significant, fun hopen => absurd (h.closed hopen) (List.cons_ne_nil a t)⟩

theorem Context.IsMidway.afterCut (h : c.IsMidway t) (hspelled : (c.cut t).Spelled c v) :
    (c.advance (c.cut t)).IsMidway v := by
  refine ⟨?_, hspelled.closes⟩
  show ((c.cut t).pieces.reverse ++ c.done).any Piece.isSignificant = true
  rw [List.any_append, h.significant, Bool.or_true]

theorem IsCut.isMidway {later : List Piece} {p : Piece} (h : IsCut c t v later)
    (hp : p ∈ (c.cut t).pieces) (hsig : p.isSignificant = true) :
    (c.advance (c.cut t)).IsMidway v := by
  refine ⟨?_, h.spelled.closes⟩
  show ((c.cut t).pieces.reverse ++ c.done).any Piece.isSignificant = true
  exact List.any_eq_true.mpr ⟨p, List.mem_append_left _ (List.mem_reverse.mpr hp), hsig⟩

/-- A list of one element falls apart in one way. -/
theorem split_singleton {α : Type} {a b : α} {mid left : List α} (h : [a] = mid ++ b :: left) :
    mid = [] ∧ a = b ∧ left = [] := by
  cases mid with
  | nil =>
      obtain ⟨hab, hleft⟩ := List.cons.inj h
      exact ⟨rfl, hab, hleft.symm⟩
  | cons c mid => exact absurd (List.cons.inj h).2 (by simp)

/-- A word is cut alone, and a property is the last of its cut. -/
theorem Spelling.of_mention {ps mid left : List Piece} {k : Kind} {u : Text} (h : Spelling c v ps)
    (hsplit : ps = mid ++ .lexeme k u :: left) (hk : k.isMention = true) :
    IsName u v ∧ left = [] ∧ (k = .word ∧ mid = []
      ∨ ∃ scope, k = .property scope (Shape.assignsAfter 0 v)) := by
  have hmem : .lexeme k u ∈ ps := hsplit ▸ List.mem_append_right _ List.mem_cons_self
  -- only words and variables are mentions, so most spellings have none among their pieces
  have hsame : ∀ {k' : Kind} {u' : Text}, Piece.lexeme k u = .lexeme k' u' →
      k'.isMention = true := by
    intro k' u' heq
    rw [← (Piece.lexeme.inj heq).1]
    exact hk
  cases h with
  | comment =>
      rcases List.mem_cons.mp hmem with heq | hmem
      · exact absurd (hsame heq) Bool.false_ne_true
      · exact absurd (Piece.mem_gaps hmem) Piece.noConfusion
  | heading _ hfree _ _ =>
      rcases List.mem_append.mp hmem with hin | hcolon
      · rw [hfree k u hin] at hk
        exact absurd hk Bool.false_ne_true
      · exact absurd (hsame (List.mem_singleton.mp hcolon)) Bool.false_ne_true
  | name hbare hname _ =>
      obtain ⟨hmid, heq, hleft⟩ := split_singleton hsplit
      obtain ⟨rfl, rfl⟩ := Piece.lexeme.inj heq
      refine ⟨hname, hleft, Or.inl ⟨?_, hmid⟩⟩
      cases hbare with
      | word => rfl
      | keyword | threadEnd | scopePrefix => exact absurd hk Bool.false_ne_true
  | dotted hdotted hname hwrite =>
      cases mid with
      | nil => exact absurd (hsame (List.cons.inj hsplit).1.symm) Bool.false_ne_true
      | cons p mid =>
          obtain ⟨-, heq, hleft⟩ := split_singleton (List.cons.inj hsplit).2
          obtain ⟨rfl, rfl⟩ := Piece.lexeme.inj heq
          refine ⟨hname, hleft, Or.inr ?_⟩
          cases hdotted with
          | property scope write => exact ⟨scope, congrArg _ (hwrite scope write rfl)⟩
          | member => exact absurd hk Bool.false_ne_true
  | cross _ hname =>
      rcases List.mem_cons.mp hmem with heq | hmem
      · exact absurd (hsame heq) Bool.false_ne_true
      · rcases List.mem_cons.mp hmem with heq | hmem
        · exact absurd (hsame heq) Bool.false_ne_true
        · rcases hname with rfl | ⟨name, rfl, -⟩
          · exact absurd hmem List.not_mem_nil
          · exact absurd (hsame (List.mem_singleton.mp hmem)) Bool.false_ne_true
  | string | number | directive | path | operator | stray =>
      exact absurd (hsame (List.mem_singleton.mp hmem)) Bool.false_ne_true

/-- A word of a row is a name, and none runs up to it; the rest of the row is read behind it. -/
theorem word_spelled (s : State) {row u : Text} {before after : List Piece}
    (hsplit : (cutRow s row).pieces = before ++ .lexeme .word u :: after) :
    IsName u (Piece.texts after) ∧ insideName (Piece.texts before) = false
      ∧ ∃ c : Context, c.IsMidway (Piece.texts after) ∧ Reads c (Piece.texts after) after := by
  obtain ⟨c, t, v, mid, left, later, hcut, hpieces, hbefore, rfl⟩ :=
    (cutRow_reads s row).exists_cut (parted_start s row) hsplit
  have hmidway := hcut.isMidway (p := .lexeme .word u)
    (hpieces ▸ List.mem_append_right _ List.mem_cons_self) rfl
  obtain ⟨hname, rfl, ⟨-, rfl⟩ | ⟨scope, hkind⟩⟩ := hcut.spelled.pieces.of_mention hpieces rfl
  · have hv : v = Piece.texts later := hcut.rest.texts_eq.symm
    subst hv
    refine ⟨hname, ?_, _, hmidway, hcut.rest⟩
    have hdone : before = c.done.reverse := by
      rw [List.append_nil] at hbefore
      exact hbefore
    -- the first character of the word shows that no name ran up to it
    have hfirst : t.head?.any isIdentifierChar = true := by
      rw [← hcut.texts, hpieces, List.nil_append, Piece.texts_singleton]
      exact hname.head?_any
    rw [hdone, Bool.eq_false_iff]
    intro hinside
    exact Bool.false_ne_true ((hcut.parted hinside).symm.trans hfirst)
  · exact absurd hkind Kind.noConfusion

/-- A property of a row is a write when an assignment follows it; the rest of the row is read behind
    it. -/
theorem property_spelled (s : State) {row u : Text} {scope : Scope} {write : Bool}
    {before after : List Piece}
    (hsplit : (cutRow s row).pieces = before ++ .lexeme (.property scope write) u :: after) :
    write = Shape.assignsAfter 0 (Piece.texts after)
      ∧ ∃ c : Context, c.IsMidway (Piece.texts after) ∧ Reads c (Piece.texts after) after := by
  obtain ⟨c, t, v, mid, left, later, hcut, hpieces, -, rfl⟩ :=
    (cutRow_reads s row).exists_cut (parted_start s row) hsplit
  have hmidway := hcut.isMidway (p := .lexeme (.property scope write) u)
    (hpieces ▸ List.mem_append_right _ List.mem_cons_self) rfl
  obtain ⟨-, rfl, ⟨hkind, -⟩ | ⟨scope', hkind⟩⟩ := hcut.spelled.pieces.of_mention hpieces rfl
  · exact absurd hkind Kind.noConfusion
  · have hv : v = Piece.texts later := hcut.rest.texts_eq.symm
    subst hv
    exact ⟨(Kind.property.inj hkind).2, _, hmidway, hcut.rest⟩

end Scan

/-! ## Cuts behind a lexeme -/

namespace Shape

variable {a : Char} {rest : Text}

theorem take_two_cons (a : Char) (rest : Text) : (a :: rest).take 2 = a :: rest.take 1 := rfl

/-- No operator starts with a character that is none by itself. -/
theorem operator?_eq_none (h : narrowOperators.contains a = false) :
    operator? (a :: rest) = none := by
  have hfirst : (wideOperators.all fun op => op.head?.any narrowOperators.contains) = true := by
    decide
  have hwide : wideOperators.contains ((a :: rest).take 2) = false := by
    rw [Bool.eq_false_iff]
    intro hmem
    have ha := List.all_eq_true.mp hfirst _ (List.contains_iff_mem.mp hmem)
    exact Bool.false_ne_true (h.symm.trans ha)
  rw [operator?, if_neg (Bool.eq_false_iff.mp hwide), if_neg]
  exact Bool.eq_false_iff.mp h

/-- Operators of one character that no longer operator starts with. -/
def loneOperators : Text := ['.', '#', '(', '[', ']']

theorem operator?_lone (h : loneOperators.contains a = true) :
    operator? (a :: rest) = some [a] := by
  have hnarrow : (loneOperators.all narrowOperators.contains) = true := by decide
  have hfirst : (wideOperators.all fun op => !op.head?.any loneOperators.contains) = true := by
    decide
  have hwide : wideOperators.contains ((a :: rest).take 2) = false := by
    rw [Bool.eq_false_iff]
    intro hmem
    have hother := List.all_eq_true.mp hfirst _ (List.contains_iff_mem.mp hmem)
    exact Bool.false_ne_true (((Bool.not_eq_true' _).mp hother).symm.trans h)
  rw [operator?, if_neg (Bool.eq_false_iff.mp hwide), if_pos]
  · rfl
  · exact List.all_eq_true.mp hnarrow a (List.contains_iff_mem.mp h)

end Shape

namespace Scan

variable {c : Context} {v : Text} {ps : List Piece} {a : Char} {rest : Text}

theorem operator?_of_isIdentifierChar (ha : isIdentifierChar a = true) :
    Shape.operator? (a :: rest) = none := by
  cases hop : Shape.operator? (a :: rest) with
  | none => rfl
  | some op =>
      obtain ⟨⟨tail, htail⟩, hne⟩ := Shape.operator?_prefix hop
      cases op with
      | nil => exact absurd rfl hne
      | cons b op =>
          obtain ⟨rfl, -⟩ := List.cons.inj htail
          have hb := Shape.isIdentifierChar_of_mem_operator hop b List.mem_cons_self
          exact absurd (hb.symm.trans ha) Bool.false_ne_true

/-- Behind a lexeme of the row no statement starts. -/
theorem Context.IsMidway.atStatementStart (h : c.IsMidway v) : c.atStatementStart = false := by
  rw [Context.atStatementStart, h.significant, Bool.not_true, Bool.and_false]

/-- The first piece of a cut is the operator that the text starts with, or it is no operator and the
    text starts with none but a dot, a hash or a slash. -/
def Heads (k : Kind) (u t : Text) : Prop :=
  k = .operator ∧ Shape.operator? t = some u
    ∨ k ≠ .operator ∧ ∀ op, Shape.operator? t = some op → op ∈ [['.'], ['#'], ['/']]

theorem heads_of_none {k : Kind} {u t : Text} (hk : k ≠ .operator)
    (hop : Shape.operator? t = none) : Heads k u t :=
  Or.inr ⟨hk, fun op hsome => absurd (hsome.symm.trans hop) (Option.some_ne_none op)⟩

theorem heads_of_some {k : Kind} {u t op : Text} (hk : k ≠ .operator)
    (hop : Shape.operator? t = some op) (hmem : op ∈ [['.'], ['#'], ['/']]) : Heads k u t := by
  refine Or.inr ⟨hk, fun op' hsome => ?_⟩
  rw [← Option.some.inj (hop.symm.trans hsome)]
  exact hmem

theorem heads_of_path {k : Kind} {u t : Text} (hk : k ≠ .operator) (hpath : IsPath u)
    (hu : u ++ v = a :: rest) : Heads k t (a :: rest) := by
  obtain ⟨-, hstart⟩ := hpath
  cases u with
  | nil => exact absurd hstart Bool.false_ne_true
  | cons b u =>
      obtain ⟨rfl, -⟩ := List.cons.inj hu
      rw [List.head?_cons, Option.any_some, Bool.or_eq_true, beq_iff_eq] at hstart
      rcases hstart with hstart | rfl
      · exact heads_of_none hk
          (operator?_of_isIdentifierChar (isIdentifierChar_of_isIdentifierStart hstart))
      · exact heads_of_some hk (Shape.operator?_lone rfl) (by decide)

/-- Behind a lexeme, a cut starts with an operator where the text does. -/
theorem Spelling.first (h : Spelling c v ps) (hmidway : c.IsMidway (a :: rest))
    (hv : Piece.texts ps ++ v = a :: rest) :
    ∃ k u qs, ps = .lexeme k u :: qs ∧ Heads k u (a :: rest) := by
  -- what each spelling starts with tells which operator, if any, could be cut there
  cases h with
  | @comment u tail _ hopen _ =>
      refine ⟨_, _, _, rfl, ?_⟩
      rcases hopen with hin | ⟨second, r, hu, hsecond⟩
      · exact absurd (hmidway.closed hin) (List.cons_ne_nil a rest)
      · rw [Piece.texts_cons, Piece.texts_gaps] at hv
        rw [← hv, show Piece.text (.lexeme .comment u) ++ tail = _ from hu]
        have hop : Shape.operator? ('/' :: second :: r ++ v) = some ['/'] := by
          rcases hsecond with rfl | rfl <;> rfl
        exact heads_of_some (by decide) hop (by decide)
  | string _ =>
      obtain ⟨rfl, -⟩ := List.cons.inj hv
      exact ⟨_, _, _, rfl, heads_of_none (by decide) (Shape.operator?_eq_none (by decide))⟩
  | @number u _ hstart =>
      refine ⟨_, _, _, rfl, heads_of_none (by decide) (operator?_of_isIdentifierChar ?_)⟩
      cases u with
      | nil => exact absurd hstart Bool.false_ne_true
      | cons b u =>
          obtain ⟨rfl, -⟩ := List.cons.inj hv
          exact isIdentifierChar_of_isDigit hstart
  | heading hstart _ _ _ =>
      exact absurd (hmidway.atStatementStart.symm.trans hstart) Bool.false_ne_true
  | name hk hname _ =>
      rw [Piece.texts_singleton] at hv
      have hfirst := hname.head?_any
      rw [hv] at hfirst
      refine ⟨_, _, _, rfl, heads_of_none ?_ (operator?_of_isIdentifierChar hfirst)⟩
      cases hk <;> exact Kind.noConfusion
  | directive _ _ =>
      obtain ⟨rfl, -⟩ := List.cons.inj hv
      exact ⟨_, _, _, rfl, heads_of_some (by decide) (Shape.operator?_lone rfl) (by decide)⟩
  | dotted _ _ _ =>
      obtain ⟨rfl, -⟩ := List.cons.inj hv
      exact ⟨_, _, _, rfl, Or.inl ⟨rfl, Shape.operator?_lone rfl⟩⟩
  | path hpath _ =>
      rw [Piece.texts_singleton] at hv
      exact ⟨_, _, _, rfl, heads_of_path (by decide) hpath hv⟩
  | cross hpath _ =>
      rw [Piece.texts_cons, List.append_assoc] at hv
      exact ⟨_, _, _, rfl, heads_of_path (by decide) hpath hv⟩
  | operator hop =>
      rw [Piece.texts_singleton] at hv
      rw [hv] at hop
      exact ⟨_, _, _, rfl, Or.inl ⟨rfl, hop⟩⟩
  | stray hop _ _ =>
      obtain ⟨rfl, rfl⟩ := List.cons.inj hv
      exact ⟨_, _, _, rfl, heads_of_none (by decide) hop⟩

end Scan

/-! ## Signs -/

/-- Whether a lexeme is the operator. -/
def isSign (op : String) (l : Lexeme) : Bool := l.isOperator op

theorem isSign_iff {op : String} {l : Lexeme} :
    isSign op l = true ↔ l.kind = .operator ∧ l.text = op.toList := by
  rw [isSign, Lexeme.isOperator, Bool.and_eq_true, beq_iff_eq, beq_iff_eq]

/-- No lexeme is two operators. -/
theorem isSign_other {op other : String} {l : Lexeme} (h : isSign op l = true)
    (hne : op.toList ≠ other.toList) : isSign other l = false := by
  rw [Bool.eq_false_iff, ne_eq, isSign_iff]
  exact fun hother => hne ((isSign_iff.mp h).2.symm.trans hother.2)

/-- Behind a lexeme, a parenthesis or bracket among the characters is one among the lexemes. -/
theorem Scan.Heads.isSign_eq {k : Kind} {u : Text} {a b : Char} {rest : Text} {op : String}
    (h : Heads k u (a :: rest)) (hop : op.toList = [b]) (hb : ['(', '[', ']'].contains b = true)
    (line column : Nat) : isSign op ⟨line, column, k, u⟩ = (a == b) := by
  have hlone : (['(', '[', ']'].all fun b => Shape.loneOperators.contains b
      && !([['.'], ['#'], ['/']] : List Text).contains [b]) = true := by decide
  have hb := List.all_eq_true.mp hlone b (List.contains_iff_mem.mp hb)
  rw [Bool.and_eq_true, Bool.not_eq_true'] at hb
  have hhere : a = b → Shape.operator? (a :: rest) = some [b] := by
    rintro rfl
    exact Shape.operator?_lone hb.1
  rw [Bool.eq_iff_iff, isSign_iff, beq_iff_eq, hop]
  rcases h with ⟨rfl, hu⟩ | ⟨hk, hother⟩
  · constructor
    · rintro ⟨-, rfl⟩
      obtain ⟨⟨tail, htail⟩, -⟩ := Shape.operator?_prefix hu
      exact (List.cons.inj htail).1.symm
    · intro hab
      exact ⟨rfl, Option.some.inj (hu.symm.trans (hhere hab))⟩
  · constructor
    · rintro ⟨hoperator, -⟩
      exact absurd hoperator hk
    · intro hab
      rw [List.contains_iff_mem.mpr (hother _ (hhere hab))] at hb
      exact absurd hb.2.symm Bool.false_ne_true

namespace Scan

/-! ## The lines of a text -/

/-- The lexemes on a line are those of its row. -/
theorem filter_line_ofRows (s : State) {rs : List Text} {k : Nat} {row : Text}
    (hrow : rs[k]? = some row) : (Scan.ofRows s 0 rs).lexemes.filter (·.line == k)
      = Piece.layOut k 0 (cutRow (s.afterRows (rs.take k)) row).pieces := by
  obtain ⟨hk, hget⟩ := List.getElem?_eq_some_iff.mp hrow
  have hfrom := lexemes_ofRows_drop s rs (Nat.le_of_lt hk)
  rw [← List.getElem_cons_drop hk, hget, Scan.ofRows] at hfrom
  have hsame : (Scan.ofRows s 0 rs).lexemes.filter (·.line == k)
      = ((Scan.ofRows s 0 rs).lexemes.filter (k ≤ ·.line)).filter (·.line == k) := by
    rw [List.filter_filter]
    refine List.filter_congr fun l _ => ?_
    rw [Bool.eq_iff_iff, Bool.and_eq_true, beq_iff_eq, decide_eq_true_eq]
    omega
  rw [hsame, ← hfrom, List.filter_append]
  have hhere : ∀ l ∈ Piece.layOut k 0 (cutRow (s.afterRows (rs.take k)) row).pieces,
      (l.line == k) = true := by
    intro l hl
    rw [Piece.line_of_mem_layOut hl, beq_self_eq_true]
  have hlater : ∀ l ∈ (Scan.ofRows ((cutRow (s.afterRows (rs.take k)) row).state.afterRow
      (cutRow (s.afterRows (rs.take k)) row).pieces) (k + 1) (rs.drop (k + 1))).lexemes,
      ¬ (l.line == k) = true := by
    intro l hl
    obtain ⟨i, row', -, hl⟩ := mem_lexemes_ofRows.mp hl
    rw [Piece.line_of_mem_layOut hl, beq_iff_eq]
    omega
  rw [List.filter_eq_self.mpr hhere, List.filter_eq_nil_iff.mpr hlater, List.append_nil]

/-- What stands around a lexeme in its line: the lexemes before it and after it are those of the
    pieces before it and after it in its row. -/
theorem split_line_at_lexeme {t : Text} {before after : List Lexeme} {l : Lexeme}
    (h : (scan t).lexemes = before ++ l :: after) :
    ∃ row ps qs, (rows t)[l.line]? = some row
      ∧ (cutRow (State.initial.afterRows ((rows t).take l.line)) row).pieces
          = ps ++ .lexeme l.kind l.text :: qs
      ∧ before.filter (·.line == l.line) = Piece.layOut l.line 0 ps
      ∧ after.filter (·.line == l.line) = Piece.layOut l.line l.endColumn qs
      ∧ l.column = (Piece.texts ps).length ∧ row.drop l.endColumn = Piece.texts qs := by
  obtain ⟨row, ps, qs, hrow, hpieces, hbefore⟩ := split_at_lexeme h
  have hline : l.line ≤ (rows t).length := Nat.le_of_lt (List.getElem?_eq_some_iff.mp hrow).1
  have hearlier : before.filter (·.line == l.line) = Piece.layOut l.line 0 ps := by
    have hnone : ∀ m ∈ (Scan.ofRows .initial 0 ((rows t).take l.line)).lexemes,
        ¬ (m.line == l.line) = true := by
      intro m hm
      rw [lexemes_ofRows_take .initial (rows t) hline, List.mem_filter] at hm
      have := of_decide_eq_true hm.2
      rw [beq_iff_eq]
      omega
    have hhere : ∀ m ∈ Piece.layOut l.line 0 ps, (m.line == l.line) = true := by
      intro m hm
      rw [Piece.line_of_mem_layOut hm, beq_self_eq_true]
    rw [hbefore, List.filter_append, List.filter_eq_nil_iff.mpr hnone,
      List.filter_eq_self.mpr hhere, List.nil_append]
  -- the lexemes of the line, put together in two ways
  have hon := filter_line_ofRows .initial hrow
  have hself : (l :: after).filter (·.line == l.line) = l :: after.filter (·.line == l.line) :=
    List.filter_cons_of_pos (beq_self_eq_true l.line)
  rw [← scan, h, List.filter_append, hself, hearlier, hpieces, Piece.layOut_append, Piece.layOut,
    Nat.zero_add] at hon
  obtain ⟨hl, hafter⟩ := List.cons.inj (List.append_cancel_left hon)
  have hcolumn : l.column = Piece.width ps := congrArg Lexeme.column hl
  refine ⟨row, ps, qs, hrow, hpieces, hearlier, ?_, ?_, ?_⟩
  · rw [hafter, Lexeme.endColumn, hcolumn]
    rfl
  · rw [hcolumn, Piece.width_eq]
  · have htexts := (cutRow_tiles (State.initial.afterRows ((rows t).take l.line)) row).1
    rw [hpieces, Piece.texts_append, Piece.texts_cons, ← List.append_assoc] at htexts
    rw [← htexts, Lexeme.endColumn, hcolumn, Piece.width_eq]
    exact List.drop_left' (List.length_append ..)

end Scan

end ScriptAtlas
