import ScriptAtlas.Proofs.Scan.ThreadExtent

/-! # Kinds — where lexemes of a kind stand, and how they are written

    What a lexeme is says something about what stands before it: a header is
    the first in its line, labels and closing `end`s stand in an open thread,
    and a cross reference has its path two lexemes before its name.  The route:

    * a cut with a piece of such a kind has seen to it (`Cut.Allowed`);
    * what every cut of a row has seen to holds of the whole row
      (`cutRow_forall`);
    * hence it holds of the lexemes of a text. -/

namespace ScriptAtlas

open Vocabulary Text

/-- A piece whose kind says nothing about where it stands or how it is written. -/
def Piece.IsFree : Piece → Prop
  | .lexeme (.threadName _) _ => False
  | .lexeme .labelDef _ => False
  | .lexeme .threadEnd _ => False
  | .lexeme .crossRefName _ => False
  | .lexeme .word _ => False
  | _ => True

theorem Piece.isFree_of_insignificant {p : Piece} (h : p.isSignificant = false) : p.IsFree := by
  cases p with
  | gap t => trivial
  | lexeme k t =>
      have hk : k = .comment := by simpa [Piece.isSignificant, Kind.isSignificant] using h
      rw [hk]
      trivial

theorem Piece.InHeader.isFree {p : Piece} (h : p.InHeader) : p.IsFree := by
  cases h <;> trivial

/-- The name of a header is the word that the text starts with. -/
theorem Header.isIdentifierChar_of_mem_name {t : Text} {h : Header} (hh : Header.ofText? t = some h) :
    ∀ a ∈ h.name, isIdentifierChar a = true := by
  have hname : h.name = Shape.word t := by
    rw [ofText?] at hh
    dsimp only at hh
    split at hh
    · exact nomatch hh
    · obtain ⟨-, hheader⟩ := Option.ite_none_right_eq_some.mp hh
      rw [← Option.some.inj hheader]
  rw [hname]
  exact Shape.isIdentifierChar_of_mem_word

namespace Scan

/-! ## What cuts see to -/

/-- What holds of a piece that is cut at a place after other pieces of the same cut. -/
def Context.Allows (c : Context) (before : List Piece) : Piece → Prop
  | .lexeme (.threadName _) t => c.done = [] ∧ before = [] ∧ ∀ a ∈ t, isIdentifierChar a = true
  | .lexeme .labelDef _ => c.state.threadOpen = true ∧ before = []
  | .lexeme .threadEnd _ => c.closesThread = true ∧ before = []
  | .lexeme .crossRefName t => (∀ a ∈ t, isIdentifierChar a = true)
      ∧ ∃ path, before = [.lexeme .pathRef path, .lexeme .operator [':', ':']]
  | .lexeme .word t => ∀ a ∈ t, isIdentifierChar a = true
  | _ => True

/-- Pieces that are allowed one after the other, the first after `before`. -/
def Context.AllowsAll (c : Context) : (before : List Piece) → List Piece → Prop
  | _, [] => True
  | before, p :: ps => c.Allows before p ∧ c.AllowsAll (before ++ [p]) ps

/-- A cut all of whose pieces are allowed at its place. -/
def Cut.Allowed (cut : Cut) (c : Context) : Prop := c.AllowsAll [] cut.pieces

variable {c : Context} {t : Text} {cut : Cut}

theorem Context.AllowsAll.allows {before ps : List Piece} (h : c.AllowsAll before ps)
    {mid after : List Piece} {p : Piece} (hsplit : ps = mid ++ p :: after) :
    c.Allows (before ++ mid) p := by
  subst hsplit
  induction mid generalizing before with
  | nil =>
      rw [List.append_nil]
      exact h.1
  | cons q mid ih =>
      rw [List.append_cons]
      exact ih h.2

/-- Free pieces are allowed anywhere. -/
theorem Context.allowsAll_of_isFree (c : Context) (before : List Piece) {ps : List Piece}
    (h : ∀ p ∈ ps, p.IsFree) : c.AllowsAll before ps := by
  induction ps generalizing before with
  | nil => trivial
  | cons p ps ih =>
      obtain ⟨hp, hps⟩ := List.forall_mem_cons.mp h
      refine ⟨?_, ih _ hps⟩
      cases p with
      | gap t => trivial
      | lexeme k t =>
          cases k with
          | threadName role => exact hp.elim
          | labelDef => exact hp.elim
          | threadEnd => exact hp.elim
          | crossRefName => exact hp.elim
          | word => exact hp.elim
          | _ => trivial

/-- Free pieces may follow a piece that is allowed. -/
theorem allowed_cons {p : Piece} {ps : List Piece} {s : State} (hp : c.Allows [] p)
    (hps : ∀ q ∈ ps, q.IsFree) : (⟨p :: ps, s⟩ : Cut).Allowed c :=
  ⟨hp, c.allowsAll_of_isFree [p] hps⟩

/-- A cut of any form has seen to its pieces. -/
theorem Cut.Form.allowed (h : cut.Form c t) : cut.Allowed c := by
  have hcolon : ∀ p ∈ [Piece.lexeme .operator [':']], p.IsFree :=
    List.forall_mem_singleton.mpr trivial
  cases h with
  | comment b h => exact c.allowsAll_of_isFree [] fun p hp => Piece.isFree_of_insignificant (h p hp)
  | solitary u h => exact ⟨by cases h <;> trivial, trivial⟩
  | header role hh hdone =>
      have hname := Header.isIdentifierChar_of_mem_name hh
      refine allowed_cons ⟨hdone, rfl, hname⟩ (List.forall_mem_append.mpr ⟨?_, hcolon⟩)
      exact fun p hp => (Header.inHeader_middle hh p hp).isFree
  | bareLabel hh _ hopen =>
      refine allowed_cons ⟨hopen, rfl⟩ (List.forall_mem_append.mpr ⟨?_, hcolon⟩)
      exact fun p hp => (Header.inHeader_middle hh p hp).isFree
  | label name gap hopen =>
      refine allowed_cons ⟨hopen, rfl⟩ (List.forall_mem_append.mpr ⟨?_, hcolon⟩)
      exact fun p hp => Piece.mem_gaps hp ▸ trivial
  | keyword _ => exact ⟨trivial, trivial⟩
  | threadEnd u h => exact ⟨⟨h, rfl⟩, trivial⟩
  | dotted u h => exact ⟨trivial, by cases h <;> trivial, trivial⟩
  | path _ => exact ⟨trivial, trivial⟩
  | cross _ rest =>
      refine ⟨trivial, trivial, ?_⟩
      unfold crossName
      split
      · exact ⟨⟨Shape.isIdentifierChar_of_mem_word, _, rfl⟩, trivial⟩
      · trivial
  | word => exact ⟨Shape.isIdentifierChar_of_mem_word, trivial⟩
  | operator op => exact ⟨trivial, trivial⟩

/-! ## Rows -/

/-- What holds of the pieces of a place and of those of a cut there holds of the place after. -/
theorem forall_advance {Q : List Piece → Piece → Prop}
    (hdone : ∀ before p after, c.done.reverse = before ++ p :: after → Q before p)
    (hcut : ∀ before p after, cut.pieces = before ++ p :: after → Q (c.done.reverse ++ before) p) :
    ∀ before p after, (c.advance cut).done.reverse = before ++ p :: after → Q before p := by
  intro before p after hsplit
  rw [Context.advance, List.reverse_append, List.reverse_reverse] at hsplit
  rcases List.append_eq_append_iff.mp hsplit with ⟨mid, rfl, hpieces⟩ | ⟨mid, hold, hpieces⟩
  · exact hcut mid p after hpieces
  · cases mid with
    | nil =>
        rw [List.append_nil] at hold
        have hfirst := hcut [] p after hpieces.symm
        rwa [List.append_nil, hold] at hfirst
    | cons q mid =>
        obtain ⟨rfl, -⟩ := List.cons.inj hpieces
        exact hdone before p mid hold

/-- What every cut sees to, at a place known from the start of the row, holds of the whole row. -/
theorem cutRow_forall {s : State} {Q : List Piece → Piece → Prop}
    (hgap : ∀ before t, Q before (.gap t))
    (hcut : ∀ (c : Context) (t : Text), c.Tracks s → ∀ before p after,
      (c.cut t).pieces = before ++ p :: after → Q (c.done.reverse ++ before) p) (row : Text) :
    ∀ before p after, (cutRow s row).pieces = before ++ p :: after → Q before p := by
  have hrun : ∀ (c : Context) (covered : Nat) (t : Text), c.Tracks s →
      (∀ before p after, c.done.reverse = before ++ p :: after → Q before p) →
      ∀ before p after, (cutFrom c covered t).done.reverse = before ++ p :: after →
        Q before p := by
    intro c covered t htracks hdone
    fun_induction cutFrom c covered t with
    | case1 => exact hdone
    | case2 c covered _ rest ih => exact ih htracks hdone
    | case3 c a rest ha ih =>
        refine ih (htracks.advance (keep_follows (List.forall_mem_singleton.mpr trivial)))
          (forall_advance hdone ?_)
        intro before p after hsplit
        have hp : p ∈ [Piece.gap [a]] := by
          rw [show [Piece.gap [a]] = before ++ p :: after from hsplit]
          exact List.mem_append_right _ List.mem_cons_self
        rw [List.mem_singleton.mp hp]
        exact hgap _ _
    | case4 c a rest ha next ih =>
        exact ih (htracks.advance (cut_follows c (a :: rest)))
          (forall_advance hdone (hcut c (a :: rest) htracks))
  exact hrun ⟨s, []⟩ 0 row ⟨rfl, by simp⟩ (by simp)

/-- What holds of a piece in a row that starts in a state, after the pieces before it. -/
def State.Allows (s : State) (before : List Piece) : Piece → Prop
  | .lexeme (.threadName _) t => before = [] ∧ ∀ a ∈ t, isIdentifierChar a = true
  | .lexeme .labelDef _ => (s.noteAll before).threadOpen = true
  | .lexeme .threadEnd _ => (s.noteAll before).threadOpen = true
      ∧ before.any Piece.isSignificant = false
  | .lexeme .crossRefName t => (∀ a ∈ t, isIdentifierChar a = true) ∧ ∃ earlier path,
      before = earlier ++ [.lexeme .pathRef path, .lexeme .operator [':', ':']]
  | .lexeme .word t => ∀ a ∈ t, isIdentifierChar a = true
  | _ => True

theorem Context.Tracks.threadOpen_eq {s : State} (h : c.Tracks s) :
    c.state.threadOpen = (s.noteAll c.done.reverse).threadOpen := by
  rw [h.noted]
  rfl

/-- A cut that has seen to its pieces has seen to them within the row. -/
theorem Context.Allows.inRow {s : State} (htracks : c.Tracks s) {before : List Piece} {p : Piece}
    (h : c.Allows before p) : s.Allows (c.done.reverse ++ before) p := by
  cases p with
  | gap t => trivial
  | lexeme k t =>
      cases k with
      | threadName role =>
          obtain ⟨hdone, rfl, hname⟩ := h
          rw [hdone]
          exact ⟨rfl, hname⟩
      | labelDef =>
          obtain ⟨hopen, rfl⟩ := h
          rw [List.append_nil]
          exact htracks.threadOpen_eq.symm.trans hopen
      | threadEnd =>
          obtain ⟨hcloses, rfl⟩ := h
          simp only [Context.closesThread, Context.atStatementStart, Bool.and_eq_true,
            Bool.not_eq_true'] at hcloses
          -- at the start of a statement nothing that counts stands before it in the row
          obtain ⟨⟨⟨hopen, -⟩, -, hfirst⟩, -⟩ := hcloses
          rw [List.append_nil]
          refine ⟨htracks.threadOpen_eq.symm.trans hopen, ?_⟩
          rw [List.any_reverse]
          exact hfirst
      | crossRefName =>
          obtain ⟨hname, path, rfl⟩ := h
          exact ⟨hname, c.done.reverse, path, rfl⟩
      | word => exact h
      | _ => trivial

/-- The pieces of a row are allowed where they stand. -/
theorem cutRow_allows (s : State) (row : Text) {before after : List Piece} {p : Piece}
    (hsplit : (cutRow s row).pieces = before ++ p :: after) : s.Allows before p := by
  refine cutRow_forall (Q := s.Allows) (fun _ _ => trivial) ?_ row before p after hsplit
  intro c t htracks before p after hcut
  exact ((cut_form c t).allowed.allows hcut).inRow htracks

end Scan

/-! ## Texts -/

/-- A list falls apart at each of its elements. -/
theorem take_append_cons_drop {α : Type} {l : List α} {i : Nat} {a : α} (h : l[i]? = some a) :
    l = l.take i ++ a :: l.drop (i + 1) := by
  obtain ⟨hi, rfl⟩ := List.getElem?_eq_some_iff.mp h
  rw [List.getElem_cons_drop, List.take_append_drop]

section Lexemes

variable {t : Text} {i : Nat} {l : Lexeme}

/-- A lexeme is allowed in its row, and what stands before it is known. -/
theorem scan_lexeme_allowed (h : (scan t).lexemes[i]? = some l) :
    ∃ ps, l.line ≤ (rows t).length
      ∧ (Scan.State.initial.afterRows ((rows t).take l.line)).Allows ps (.lexeme l.kind l.text)
      ∧ (scan t).lexemes.take i = (Scan.ofRows .initial 0 ((rows t).take l.line)).lexemes
          ++ Piece.layOut l.line 0 ps := by
  obtain ⟨row, ps, qs, hrow, hpieces, hbefore⟩ := split_at_lexeme (take_append_cons_drop h)
  exact ⟨ps, Nat.le_of_lt (List.getElem?_eq_some_iff.mp hrow).1, Scan.cutRow_allows _ row hpieces,
    hbefore⟩

/-- A header is the first lexeme of its line. -/
theorem header_first_on_line {role : ThreadRole} (h : (scan t).lexemes[i]? = some l)
    (hkind : l.kind = .threadName role) : ∀ m ∈ (scan t).lexemes.take i, m.line < l.line := by
  obtain ⟨ps, hline, hallows, hbefore⟩ := scan_lexeme_allowed h
  rw [hkind] at hallows
  intro m hm
  rw [hbefore, hallows.1, Piece.layOut, List.append_nil,
    Scan.lexemes_ofRows_take .initial (rows t) hline] at hm
  exact of_decide_eq_true (List.mem_filter.mp hm).2

/-- The name in a header is made of identifier characters. -/
theorem isIdentifierChar_of_mem_headerText {role : ThreadRole} (h : (scan t).lexemes[i]? = some l)
    (hkind : l.kind = .threadName role) : ∀ a ∈ l.text, isIdentifierChar a = true := by
  obtain ⟨ps, -, hallows, -⟩ := scan_lexeme_allowed h
  rw [hkind] at hallows
  exact hallows.2

/-- A thread is open after the lexemes of earlier rows and some pieces exactly when the state of the
    scan says so. -/
theorem foldl_stepOpen_eq (line : Nat) (ps : List Piece) :
    ((Scan.ofRows .initial 0 ((rows t).take line)).lexemes ++ Piece.layOut line 0 ps).foldl
        stepOpen false
      = ((Scan.State.initial.afterRows ((rows t).take line)).noteAll ps).threadOpen := by
  rw [List.foldl_append, Scan.State.noteAll_threadOpen _ line 0,
    (Scan.State.afterRows_extent .initial 0 ((rows t).take line)).1]
  rfl

/-- A label stands in an open thread. -/
theorem labelDef_in_thread (h : (scan t).lexemes[i]? = some l) (hkind : l.kind = .labelDef) :
    ((scan t).lexemes.take i).foldl stepOpen false = true := by
  obtain ⟨ps, -, hallows, hbefore⟩ := scan_lexeme_allowed h
  rw [hkind] at hallows
  rw [hbefore, foldl_stepOpen_eq]
  exact hallows

/-- A closing `end` stands in an open thread, first in its line but for comments. -/
theorem threadEnd_in_thread (h : (scan t).lexemes[i]? = some l) (hkind : l.kind = .threadEnd) :
    ((scan t).lexemes.take i).foldl stepOpen false = true
      ∧ ∀ m ∈ (scan t).lexemes.take i, m.line = l.line → m.kind = .comment := by
  obtain ⟨ps, hline, hallows, hbefore⟩ := scan_lexeme_allowed h
  rw [hkind] at hallows
  obtain ⟨hopen, hfirst⟩ := hallows
  refine ⟨?_, (first_on_line_iff hline hbefore).mpr hfirst⟩
  rw [hbefore, foldl_stepOpen_eq]
  exact hopen

/-- A word is made of identifier characters. -/
theorem isIdentifierChar_of_mem_wordText (h : (scan t).lexemes[i]? = some l)
    (hkind : l.kind = .word) : ∀ a ∈ l.text, isIdentifierChar a = true := by
  obtain ⟨ps, -, hallows, -⟩ := scan_lexeme_allowed h
  rw [hkind] at hallows
  exact hallows

/-- The name of a cross reference is made of identifier characters, and its path stands two lexemes
    before it. -/
theorem crossRefName_after_path (h : (scan t).lexemes[i]? = some l)
    (hkind : l.kind = .crossRefName) : (∀ a ∈ l.text, isIdentifierChar a = true)
      ∧ ∃ earlier path colons, (scan t).lexemes.take i = earlier ++ [path, colons]
          ∧ path.kind = .pathRef ∧ colons.kind = .operator := by
  obtain ⟨ps, -, hallows, hbefore⟩ := scan_lexeme_allowed h
  rw [hkind] at hallows
  obtain ⟨hname, earlier, path, rfl⟩ := hallows
  rw [Piece.layOut_append, ← List.append_assoc] at hbefore
  exact ⟨hname, _, _, _, hbefore, rfl, rfl⟩

end Lexemes

end ScriptAtlas
