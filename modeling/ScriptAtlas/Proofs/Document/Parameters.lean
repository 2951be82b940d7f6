import ScriptAtlas.Proofs.Document.Sites

/-! # Parameters — a parameter belongs to the header of its line

    Parameters are written in headers only, so the thread that owns one is the
    thread whose header stands on the same line.  The route:

    * a cut with a parameter in it is the header of a thread, at the start of
      its row (`Cut.Form.isHeader_of_parameter`);
    * so what stands before a parameter in its row is the name of a thread, and
      then nothing that bounds one (`cutRow_parameter`);
    * hence that thread is the open one where the parameter stands, and it lists
      the parameter (`exists_thread_of_parameter`). -/

namespace ScriptAtlas

open Progress

namespace Piece

/-- Whether pieces start with the name of a thread and go on with plain ones. -/
def StartHeader (ps : List Piece) : Prop :=
  ∃ role name rest, ps = .lexeme (.threadName role) name :: rest ∧ ∀ p ∈ rest, p.IsPlain

/-- Up to a parameter, a header is still a header. -/
theorem StartHeader.of_append {before after : List Piece} {scope : Scope} {u : Text}
    (h : StartHeader (before ++ .lexeme (.parameter scope) u :: after)) : StartHeader before := by
  obtain ⟨role, name, rest, hpieces, hplain⟩ := h
  cases before with
  | nil => exact nomatch hpieces
  | cons p before =>
      obtain ⟨rfl, rfl⟩ := List.cons.inj hpieces
      exact ⟨role, name, before, rfl, fun q hq => hplain q (List.mem_append_left _ hq)⟩

theorem IsPlain.boundsThread_eq {kind : Kind} {u : Text} (h : (Piece.lexeme kind u).IsPlain) :
    kind.boundsThread = false := by
  cases kind with
  | threadName role => exact h.elim
  | threadEnd => exact h.elim
  | _ => rfl

end Piece

namespace Scan

variable {c : Context} {t : Text} {cut : Cut}

/-- A cut with a parameter is a header, and starts its row. -/
theorem Cut.Form.isHeader_of_parameter (h : cut.Form c t) {scope : Scope} {u : Text}
    (hp : Piece.lexeme (.parameter scope) u ∈ cut.pieces) :
    c.done = [] ∧ ∃ header role, Header.ofText? t = some header
      ∧ cut.pieces = header.pieces (.threadName role) := by
  cases h with
  | comment b h => exact nomatch h _ hp
  | solitary u h =>
      cases List.mem_singleton.mp hp
      exact nomatch h
  | header role hh hdone => exact ⟨hdone, _, role, hh, rfl⟩
  | @bareLabel h hh hbare _ =>
      -- such a label has no lexemes between its name and its colon
      rcases List.mem_append.mp hp with hp | hp
      · rcases List.mem_cons.mp hp with hp | hp
        · exact nomatch hp
        rw [Header.isBare, Bool.not_eq_true', List.any_eq_false] at hbare
        exact absurd rfl (hbare _ hp)
      · exact nomatch List.mem_singleton.mp hp
  | label name gap _ =>
      rcases List.mem_append.mp hp with hp | hp
      · rcases List.mem_cons.mp hp with hp | hp
        · exact nomatch hp
        · exact nomatch Piece.mem_gaps hp
      · exact nomatch List.mem_singleton.mp hp
  | keyword _ => exact nomatch List.mem_singleton.mp hp
  | threadEnd _ _ => exact nomatch List.mem_singleton.mp hp
  | dotted u h =>
      rcases List.mem_cons.mp hp with hp | hp
      · exact nomatch hp
      · cases List.mem_singleton.mp hp
        exact nomatch h
  | path _ => exact nomatch List.mem_singleton.mp hp
  | cross _ rest =>
      rcases List.mem_cons.mp hp with hp | hp
      · exact nomatch hp
      rcases List.mem_cons.mp hp with hp | hp
      · exact nomatch hp
      unfold crossName at hp
      split at hp
      · exact nomatch List.mem_singleton.mp hp
      · exact nomatch hp
  | word => exact nomatch List.mem_singleton.mp hp
  | operator _ => exact nomatch List.mem_singleton.mp hp

/-- What stands before a parameter in its row is the start of a header. -/
theorem cutRow_parameter {s : State} {row : Text} {before after : List Piece} {scope : Scope}
    {u : Text} (h : (cutRow s row).pieces = before ++ .lexeme (.parameter scope) u :: after) :
    Piece.StartHeader before := by
  refine cutRow_forall
    (Q := fun before p => p = .lexeme (.parameter scope) u → Piece.StartHeader before)
    (fun _ _ hgap => nomatch hgap) ?_ row before _ after h rfl
  rintro c t - before _ after hcut rfl
  have hmem : Piece.lexeme (.parameter scope) u ∈ (c.cut t).pieces := by
    rw [hcut]
    exact List.mem_append_right _ List.mem_cons_self
  obtain ⟨hdone, header, role, hh, hpieces⟩ := (cut_form c t).isHeader_of_parameter hmem
  have hheader : Piece.StartHeader (c.cut t).pieces :=
    ⟨role, header.name, _, hpieces, isPlain_afterName hh⟩
  rw [hcut] at hheader
  rw [hdone]
  exact hheader.of_append

end Scan

theorem Site.parameterOf?_of_owner {s : Site} {scope : Scope} {k : Nat}
    (hkind : s.lexeme.kind = .parameter scope) (howner : s.owner = some k) :
    s.parameterOf? k = some (scope.qualify s.lexeme.text) := by
  rw [parameterOf?, hkind]
  exact if_pos (beq_iff_eq.mpr howner)

section Text

variable {t : Text} {i : Nat} {l : Lexeme} {scope : Scope}

/-- Plain pieces make no progress. -/
theorem Progress.foldl_layOut {ps : List Piece} (h : ∀ p ∈ ps, p.IsPlain) (line column : Nat)
    (p : Progress) : (Piece.layOut line column ps).foldl step p = p := by
  induction ps generalizing column with
  | nil => rfl
  | cons q ps ih =>
      obtain ⟨hq, hps⟩ := List.forall_mem_cons.mp h
      cases q with
      | gap u => exact ih hps _
      | lexeme kind u =>
          rw [Piece.layOut, List.foldl_cons, step_other hq.boundsThread_eq]
          exact ih hps _

/-- Where a parameter stands, the thread with the header of its line is open. -/
theorem exists_header_of_parameter (hl : (scan t).lexemes[i]? = some l)
    (hkind : l.kind = .parameter scope) :
    ∃ k j m, IsHeader (scan t).lexemes k j m ∧ m.line = l.line
      ∧ (upTo (scan t).lexemes i).owner l = some k := by
  have hsplit := take_append_cons_drop hl
  obtain ⟨row, ps, qs, hrow, hpieces, hbefore⟩ := split_at_lexeme hsplit
  rw [hkind] at hpieces
  obtain ⟨role, name, rest, rfl, hplain⟩ := Scan.cutRow_parameter hpieces
  -- the header stands right after the earlier rows
  generalize (Scan.ofRows .initial 0 ((Text.rows t).take l.line)).lexemes = earlier at hbefore
  rw [hbefore, Piece.layOut, List.append_assoc, List.cons_append] at hsplit
  have hearlier : (scan t).lexemes.take earlier.length = earlier := by
    rw [hsplit, List.take_left]
  refine ⟨(upTo (scan t).lexemes earlier.length).opened, earlier.length,
    ⟨l.line, 0, .threadName role, name⟩, ⟨?_, rfl, rfl⟩, rfl, ?_⟩
  · rw [hsplit, List.getElem?_append_right (Nat.le_refl _), Nat.sub_self]
    rfl
  · rw [owner_other (by rw [hkind]; rfl), upTo, upTo, hbefore, hearlier, Piece.layOut,
      List.foldl_append, List.foldl_cons, foldl_layOut hplain]
    rfl

/-- A parameter belongs to the thread of the header on its line, which lists it. -/
theorem exists_thread_of_parameter (path : Path) (hl : (scan t).lexemes[i]? = some l)
    (hkind : l.kind = .parameter scope) :
    ∃ k th, (upTo (scan t).lexemes i).owner l = some k
      ∧ (Document.read path t).threads[k]? = some th ∧ th.line = l.line
      ∧ th.hasParameter (scope.qualify l.text) = true := by
  obtain ⟨k, j, m, hheader, hline, howner⟩ := exists_header_of_parameter hl hkind
  obtain ⟨role, hrole⟩ := exists_role hheader.kind
  refine ⟨k, _, howner, getElem?_threads_of_header path hheader hrole, hline, ?_⟩
  exact List.contains_iff_mem.mpr
    (mem_filterMap_sites.mpr ⟨i, l, hl, Site.parameterOf?_of_owner hkind howner⟩)

end Text

end ScriptAtlas
