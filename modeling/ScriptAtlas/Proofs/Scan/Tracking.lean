import ScriptAtlas.Proofs.Scan.Forms

/-! # Tracking — the state of a scan is read off the pieces

    The matchers change the state in passing: a header opens a thread, an `end`
    closes it, braces move the depth.  All of that can be told from the pieces
    that were cut (`State.note`), an open comment apart.  The route:

    * most forms of cuts have plain pieces and leave the state alone;
    * a header, an `end` and a brace do what `State.note` says, and an `end`
      closes the thread exactly where `Context.closesThread` lets it;
    * hence the state at the end of a row is the state at its start with the
      pieces of the row noted (`cutRow_noted`), and every `end` in it is decided
      by what stands before it (`cutRow_decided`). -/

namespace ScriptAtlas

open Vocabulary Text

namespace Scan

/-! ## Noting pieces -/

/-- What a piece says about the state after it, open comments apart. -/
def State.note (s : State) : Piece → State
  | .lexeme (.threadName _) _ =>
    { s with threadOpen := true, depth := 0, bracelessPending := false }
  | .lexeme .threadEnd _ => { s with threadOpen := false }
  | .lexeme .operator op => { s with depth := depthAfter op s.depth }
  | _ => s

/-- What pieces say about the state after them. -/
def State.noteAll (s : State) (ps : List Piece) : State := ps.foldl State.note s

/-- The same state, with a comment open or not. -/
def State.withComment (s : State) (inComment : Bool) : State := { s with inComment }

@[simp] theorem State.noteAll_nil (s : State) : s.noteAll [] = s := rfl

@[simp] theorem State.noteAll_cons (s : State) (p : Piece) (ps : List Piece) :
    s.noteAll (p :: ps) = (s.note p).noteAll ps := rfl

@[simp] theorem State.noteAll_append (s : State) (ps qs : List Piece) :
    s.noteAll (ps ++ qs) = (s.noteAll ps).noteAll qs := List.foldl_append

/-- Noting does not look at open comments. -/
theorem State.note_withComment (s : State) (b : Bool) (p : Piece) :
    (s.withComment b).note p = (s.note p).withComment b := by
  cases p with
  | gap t => rfl
  | lexeme k t => cases k <;> rfl

theorem State.noteAll_withComment (s : State) (b : Bool) (ps : List Piece) :
    (s.withComment b).noteAll ps = (s.noteAll ps).withComment b := by
  induction ps generalizing s with
  | nil => rfl
  | cons p ps ih => rw [State.noteAll_cons, State.note_withComment, ih, State.noteAll_cons]

/-- Whether the row continues a statement is not for its pieces to say. -/
theorem State.noteAll_continued (s : State) (ps : List Piece) :
    (s.noteAll ps).continued = s.continued := by
  induction ps generalizing s with
  | nil => rfl
  | cons p ps ih =>
      rw [State.noteAll_cons, ih]
      cases p with
      | gap t => rfl
      | lexeme k t => cases k <;> rfl

/-- Pieces other than significant ones say nothing. -/
theorem State.noteAll_insignificant (s : State) {ps : List Piece}
    (h : ps.any Piece.isSignificant = false) : s.noteAll ps = s := by
  induction ps generalizing s with
  | nil => rfl
  | cons p ps ih =>
      rw [List.any_cons, Bool.or_eq_false_iff] at h
      rw [State.noteAll_cons, ih (s.note p) h.2]
      cases p with
      | gap t => rfl
      | lexeme k t =>
          have hk : k = .comment := by simpa [Piece.isSignificant, Kind.isSignificant] using h.1
          rw [hk]
          rfl

end Scan

/-! ## Plain pieces -/

/-- A piece that leaves the state as it is and is no reserved word. -/
def Piece.IsPlain : Piece → Prop
  | .lexeme (.threadName _) _ => False
  | .lexeme .threadEnd _ => False
  | .lexeme .keyword _ => False
  | .lexeme .operator op => op ≠ ['\x7b'] ∧ op ≠ ['\x7d']
  | _ => True

namespace Piece.IsPlain

theorem note_eq {p : Piece} (h : p.IsPlain) (s : Scan.State) : s.note p = s := by
  cases p with
  | gap t => rfl
  | lexeme k t =>
      cases k with
      | threadName role => exact h.elim
      | threadEnd => exact h.elim
      | operator =>
          show { s with depth := Scan.depthAfter t s.depth } = s
          rw [Scan.depthAfter, if_neg (by simpa using h.1), if_neg (by simpa using h.2)]
      | _ => rfl

theorem isKeyword_eq {p : Piece} (h : p.IsPlain) (word : String) : p.isKeyword word = false := by
  cases p with
  | gap t => rfl
  | lexeme k t =>
      cases k with
      | keyword => exact h.elim
      | threadEnd => exact h.elim
      | _ => rfl

end Piece.IsPlain

/-- Plain pieces together leave the state as it is. -/
theorem Scan.State.noteAll_plain (s : Scan.State) {ps : List Piece} (h : ∀ p ∈ ps, p.IsPlain) :
    s.noteAll ps = s := by
  induction ps with
  | nil => rfl
  | cons p ps ih =>
      obtain ⟨hp, hps⟩ := List.forall_mem_cons.mp h
      rw [noteAll_cons, hp.note_eq s, ih hps]

theorem Piece.isPlain_of_insignificant {p : Piece} (h : p.isSignificant = false) : p.IsPlain := by
  cases p with
  | gap t => trivial
  | lexeme k t =>
      have hk : k = .comment := by simpa [Piece.isSignificant, Kind.isSignificant] using h
      rw [hk]
      trivial

theorem Piece.InHeader.isPlain {p : Piece} (h : p.InHeader) : p.IsPlain := by
  cases h with
  | gap t => trivial
  | sign hop =>
      simp only [List.mem_cons, List.not_mem_nil, or_false] at hop
      rcases hop with rfl | rfl | rfl | rfl <;> exact ⟨by decide, by decide⟩
  | scope scope t => trivial
  | parameter scope t => trivial

namespace Scan

theorem IsSolitary.isPlain {k : Kind} (h : IsSolitary k) (u : Text) :
    (Piece.lexeme k u).IsPlain := by
  cases h <;> trivial

theorem IsDotted.isPlain {k : Kind} (h : IsDotted k) (u : Text) : (Piece.lexeme k u).IsPlain := by
  cases h <;> trivial

/-! ## What cuts do to the state -/

/-- A cut that does to the state what its pieces say.  A piece that is an `end` stands alone in its
    cut, and closes the thread exactly where the place allows it. -/
structure Cut.Follows (cut : Cut) (c : Context) : Prop where
  noted : cut.state = (c.state.noteAll cut.pieces).withComment cut.state.inComment
  decided : ∀ p ∈ cut.pieces, p.isKeyword "end" = true →
    cut.pieces = [p] ∧ ((∃ t, p = .lexeme .threadEnd t) ↔ c.closesThread = true)

variable {c : Context} {t : Text} {cut : Cut}

/-- Plain pieces follow when at most an open comment changes. -/
theorem follows_of_plain {ps : List Piece} {b : Bool} (h : ∀ p ∈ ps, p.IsPlain) :
    (⟨ps, c.state.withComment b⟩ : Cut).Follows c := by
  refine ⟨?_, ?_⟩
  · show c.state.withComment b = (c.state.noteAll ps).withComment b
    rw [State.noteAll_plain c.state h]
  · intro p hp hend
    rw [(h p hp).isKeyword_eq] at hend
    exact nomatch hend

theorem keep_follows {ps : List Piece} (h : ∀ p ∈ ps, p.IsPlain) : (c.keep ps).Follows c :=
  follows_of_plain (b := c.state.inComment) h

/-- What follows the name of a header is plain. -/
theorem isPlain_afterName {header : Header} (hh : Header.ofText? t = some header) :
    ∀ p ∈ header.middle ++ [Piece.lexeme .operator [':']], p.IsPlain :=
  List.forall_mem_append.mpr ⟨fun p hp => (Header.inHeader_middle hh p hp).isPlain,
    List.forall_mem_singleton.mpr ⟨by decide, by decide⟩⟩

theorem header_follows {header : Header} {role : ThreadRole}
    (hh : Header.ofText? t = some header) :
    (⟨header.pieces (.threadName role),
      { c.state with threadOpen := true, depth := 0, bracelessPending := false }⟩ : Cut).Follows
      c := by
  have hplain := isPlain_afterName hh
  refine ⟨?_, ?_⟩
  · -- the name resets the state, and the rest of the header leaves it so
    show _ = (((c.state.note _).noteAll (header.middle ++ _)).withComment _)
    rw [State.noteAll_plain _ hplain]
    rfl
  · intro p hp hend
    rcases List.mem_cons.mp hp with rfl | hp
    · exact nomatch hend
    · rw [(hplain p hp).isKeyword_eq] at hend
      exact nomatch hend

/-- An `end` that is kept as a keyword is one that does not close. -/
theorem keyword_follows {u : Text}
    (h : sameName u "end".toList = true → c.closesThread = false) :
    (c.keep [.lexeme .keyword u]).Follows c := by
  refine ⟨rfl, ?_⟩
  intro p hp hend
  obtain rfl := List.mem_singleton.mp hp
  refine ⟨rfl, ?_, ?_⟩
  · rintro ⟨u', hu'⟩
    exact nomatch hu'
  · intro hcloses
    rw [h hend] at hcloses
    exact nomatch hcloses

theorem threadEnd_follows {u : Text} (h : c.closesThread = true) :
    (⟨[.lexeme .threadEnd u], { c.state with threadOpen := false }⟩ : Cut).Follows c := by
  refine ⟨rfl, ?_⟩
  intro p hp _
  obtain rfl := List.mem_singleton.mp hp
  exact ⟨rfl, fun _ => h, fun _ => ⟨_, rfl⟩⟩

/-- A cut of any form does to the state what its pieces say. -/
theorem Cut.Form.follows (h : cut.Form c t) : cut.Follows c := by
  cases h with
  | comment b h => exact follows_of_plain fun p hp => Piece.isPlain_of_insignificant (h p hp)
  | solitary u h => exact keep_follows (List.forall_mem_singleton.mpr (h.isPlain u))
  | header role hh _ => exact header_follows hh
  | bareLabel hh _ _ => exact keep_follows (List.forall_mem_cons.mpr ⟨trivial, isPlain_afterName hh⟩)
  | label name gap _ =>
      refine keep_follows (List.forall_mem_cons.mpr ⟨trivial, List.forall_mem_append.mpr ⟨?_, ?_⟩⟩)
      · exact fun p hp => Piece.mem_gaps hp ▸ trivial
      · exact List.forall_mem_singleton.mpr ⟨by decide, by decide⟩
  | keyword h => exact keyword_follows h
  | threadEnd u h => exact threadEnd_follows h
  | dotted u h =>
      exact keep_follows (List.forall_mem_cons.mpr ⟨⟨by decide, by decide⟩,
        List.forall_mem_singleton.mpr (h.isPlain u)⟩)
  | path _ => exact keep_follows (List.forall_mem_singleton.mpr trivial)
  | cross _ rest =>
      refine keep_follows (List.forall_mem_cons.mpr ⟨trivial, List.forall_mem_cons.mpr ⟨?_, ?_⟩⟩)
      · exact ⟨by decide, by decide⟩
      · unfold crossName
        split
        · exact List.forall_mem_singleton.mpr trivial
        · exact List.forall_mem_nil _
  | word => exact keep_follows (List.forall_mem_singleton.mpr trivial)
  | operator op =>
      refine ⟨rfl, ?_⟩
      intro p hp hend
      obtain rfl := List.mem_singleton.mp hp
      exact nomatch hend

theorem cut_follows (c : Context) (t : Text) : (c.cut t).Follows c := (cut_form c t).follows

/-! ## Rows -/

/-- A place within a row that is known from the state `s` at the start of the row and the pieces
    cut since: the state is `s` with the pieces noted, and every `end` among them closes the thread
    exactly where the pieces before it allow it. -/
structure Context.Tracks (c : Context) (s : State) : Prop where
  noted : c.state = (s.noteAll c.done.reverse).withComment c.state.inComment
  decided : ∀ before p after, c.done.reverse = before ++ p :: after → p.isKeyword "end" = true →
    ((∃ t, p = .lexeme .threadEnd t) ↔
      (⟨s.noteAll before, before.reverse⟩ : Context).closesThread = true)

/-- Whether an `end` closes the thread can be told from the pieces. -/
theorem Context.Tracks.closesThread_eq {s : State} (h : c.Tracks s) :
    c.closesThread = (⟨s.noteAll c.done.reverse, c.done⟩ : Context).closesThread := by
  rw [Context.closesThread, Context.atStatementStart, h.noted]
  rfl

/-- One cut keeps the place known. -/
theorem Context.Tracks.advance {s : State} (h : c.Tracks s) (hcut : cut.Follows c) :
    (c.advance cut).Tracks s := by
  have hdone : (c.advance cut).done.reverse = c.done.reverse ++ cut.pieces := by
    rw [Context.advance, List.reverse_append, List.reverse_reverse]
  refine ⟨?_, ?_⟩
  · rw [hdone, State.noteAll_append]
    show cut.state = _
    rw [hcut.noted, h.noted, State.noteAll_withComment]
    rfl
  · intro before p after hsplit hend
    rw [hdone] at hsplit
    rcases List.append_eq_append_iff.mp hsplit with ⟨mid, hbefore, hpieces⟩ | ⟨mid, hold, hpieces⟩
    · -- the `end` is in the new cut, where it stands alone
      have hmem : p ∈ cut.pieces := by
        rw [hpieces]
        exact List.mem_append_right _ List.mem_cons_self
      obtain ⟨hsingle, hcloses⟩ := hcut.decided p hmem hend
      have hmid : mid = [] := by
        rw [hsingle] at hpieces
        cases mid with
        | nil => rfl
        | cons q mid => exact absurd (List.cons.inj hpieces).2 (by simp)
      rw [hmid, List.append_nil] at hbefore
      rw [hcloses, h.closesThread_eq, hbefore, List.reverse_reverse]
    · cases mid with
      | nil =>
          have hmem : p ∈ cut.pieces := by
            rw [List.nil_append] at hpieces
            rw [← hpieces]
            exact List.mem_cons_self
          obtain ⟨-, hcloses⟩ := hcut.decided p hmem hend
          rw [List.append_nil] at hold
          rw [hcloses, h.closesThread_eq, ← hold, List.reverse_reverse]
      | cons q mid =>
          obtain ⟨rfl, -⟩ := List.cons.inj hpieces
          exact h.decided before p mid hold hend

/-- Reading on keeps the place known. -/
theorem cutFrom_tracks {s : State} (c : Context) (covered : Nat) (t : Text) (h : c.Tracks s) :
    (cutFrom c covered t).Tracks s := by
  fun_induction cutFrom c covered t with
  | case1 => exact h
  | case2 c covered _ rest ih => exact ih h
  | case3 c a rest ha ih =>
      exact ih (h.advance (keep_follows (List.forall_mem_singleton.mpr trivial)))
  | case4 c a rest ha next ih => exact ih (h.advance (cut_follows c (a :: rest)))

/-- The state at the end of a row, open comments apart, is the state at its start with the pieces of
    the row noted. -/
theorem cutRow_noted (s : State) (row : Text) :
    (cutRow s row).state
      = (s.noteAll (cutRow s row).pieces).withComment (cutRow s row).state.inComment :=
  (cutFrom_tracks ⟨s, []⟩ 0 row ⟨rfl, by simp⟩).noted

/-- An `end` closes the thread exactly when nothing but comments stands before it in its row and the
    row starts a statement at depth zero of an open thread that is no body of a control header. -/
theorem cutRow_decided (s : State) (row : Text) {before after : List Piece} {p : Piece}
    (hsplit : (cutRow s row).pieces = before ++ p :: after) (hend : p.isKeyword "end" = true) :
    (∃ t, p = .lexeme .threadEnd t) ↔ before.any Piece.isSignificant = false
      ∧ s.continued = false ∧ s.bracelessPending = false ∧ s.depth = 0 ∧ s.threadOpen = true := by
  rw [(cutFrom_tracks ⟨s, []⟩ 0 row ⟨rfl, by simp⟩).decided before p after hsplit hend]
  simp only [Context.closesThread, Context.atStatementStart, List.any_reverse, Bool.and_eq_true,
    Bool.not_eq_true', beq_iff_eq, State.noteAll_continued]
  constructor
  · rintro ⟨⟨⟨hopen, hdepth⟩, hcontinued, hfirst⟩, hpending⟩
    rw [State.noteAll_insignificant s hfirst] at hopen hdepth hpending
    exact ⟨hfirst, hcontinued, hpending, hdepth, hopen⟩
  · rintro ⟨hfirst, hcontinued, hpending, hdepth, hopen⟩
    rw [State.noteAll_insignificant s hfirst]
    exact ⟨⟨⟨hopen, hdepth⟩, hcontinued, hfirst⟩, hpending⟩

end Scan

end ScriptAtlas
