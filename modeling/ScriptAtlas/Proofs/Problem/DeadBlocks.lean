import ScriptAtlas.Proofs.Problem.DeadCode

/-! # Dead blocks — where dead code goes past the block of its terminator

    Dead code should end with the block that its terminator stands in.  The test
    for that looks at the depth of braces only on lines that do not start with a
    keyword, so a brace in the middle of a line can close the block unseen.  The
    route:

    * a line resumes when it starts anew, or starts without a keyword and its
      depth says that the block has ended (`resumes_iff`);
    * a finding covers the lines that its terminator silences, those that go on
      with the terminator's own statement apart (`coversLine_iff`);
    * so a covered line outside the block starts with a keyword, and there is one
      exactly when the first line outside the block does
      (`dead_code_leaves_block_iff`). -/

namespace ScriptAtlas

namespace Reachability

open Text

/-- Whether a line starts at a smaller depth of braces than a terminator. -/
def isOutside (t r : Row) : Bool := r.info.depth < t.info.depth

/-- Whether a line starts with a keyword other than `case` and `default`. -/
def startsPlain (r : Row) : Bool := r.first.kind == .keyword && !startsAnew r

/-- Whether a line goes on with the statement of an earlier one: all lines from there on do. -/
def goesOn (d : Document) (t r : Row) : Bool :=
  (rows d).all fun s => !(t.line < s.line && s.line ≤ r.line) || s.info.continued

/-- Whether a line after the statement of a terminator starts outside of its block. -/
def leavesBlock (d : Document) (t r : Row) : Bool :=
  t.line < r.line && isOutside t r && !goesOn d t r

end Reachability

/-- Whether the range of a finding reaches over a line. -/
def Finding.coversLine (f : Finding) (line : Nat) : Bool :=
  f.span.start.line ≤ line && line ≤ f.span.stop.line

namespace Reachability

variable {d : Document} {t r s : Row} {f : Finding}

/-! ## Lines that resume -/

/-- A line that does not start with a keyword resumes once the block has ended; one that does, never
    for that reason. -/
theorem resumes_iff {depth : Nat} : resumes r depth = true ↔ startsAnew r = true
    ∨ r.first.kind ≠ .keyword
      ∧ (r.info.depth < depth ∨ r.first.isOperator "\x7d" = true ∧ r.info.depth ≤ depth) := by
  unfold resumes startsAnew
  cases hkind : r.first.kind with
  | threadName _ | labelDef | threadEnd => simp
  | keyword => simp
  | operator =>
      by_cases hclose : r.first.isOperator "\x7d" = true
      · have hle : r.info.depth ≤ depth ↔ r.info.depth < depth ∨ r.info.depth ≤ depth := by omega
        simpa [hclose, Lexeme.isKeyword, hkind] using hle
      · simp [hclose, Lexeme.isKeyword, hkind]
  | _ => simp [Lexeme.isOperator, Lexeme.isKeyword, hkind]

theorem not_resumes_of_startsPlain (h : startsPlain r = true) (depth : Nat) :
    resumes r depth = false := by
  rw [startsPlain, Bool.and_eq_true, beq_iff_eq, Bool.not_eq_true'] at h
  rw [Bool.eq_false_iff, ne_eq, resumes_iff, h.2]
  rintro (hanew | ⟨hkind, -⟩)
  · exact Bool.false_ne_true hanew
  · exact hkind h.1

/-- Outside of the block, only a line that starts with a keyword can stay dead. -/
theorem startsPlain_of_isOutside (h : resumes r t.info.depth = false)
    (houtside : isOutside t r = true) : startsPlain r = true := by
  rw [Bool.eq_false_iff, ne_eq, resumes_iff, not_or, not_and] at h
  obtain ⟨hanew, hkind⟩ := h
  rw [startsPlain, Bool.eq_false_iff.mpr hanew, Bool.not_false, Bool.and_true, beq_iff_eq]
  by_contra hne
  exact hkind hne (Or.inl (of_decide_eq_true houtside))

/-! ## Lines that a finding covers -/

/-- A line goes on with the statement of an earlier one when all lines from there on do. -/
theorem goesOn_iff : goesOn d t r = true
    ↔ ∀ s ∈ rows d, t.line < s.line → s.line ≤ r.line → s.info.continued = true :=
  all_between_iff

theorem coversLine_eq_true {line : Nat} :
    f.coversLine line = true ↔ f.span.start.line ≤ line ∧ line ≤ f.span.stop.line := by
  rw [Finding.coversLine, Bool.and_eq_true, decide_eq_true_eq, decide_eq_true_eq]

/-- In a list that goes by line, the lines up to a member are over when it comes. -/
theorem line_le_getLastD {l : List Row} (hordered : l.Pairwise fun a b => a.line < b.line)
    (first : Row) (hr : r ∈ l) : r.line ≤ (l.getLastD first).line := by
  induction l generalizing first with
  | nil => exact absurd hr List.not_mem_nil
  | cons a l ih =>
      obtain ⟨hfirst, hordered⟩ := List.pairwise_cons.mp hordered
      rw [List.getLastD_cons]
      rcases List.mem_cons.mp hr with rfl | hr
      · rcases List.mem_cons.mp (List.getLastD_mem_cons (l := l) (a := r)) with heq | hmem
        · exact Nat.le_of_eq (congrArg Row.line heq.symm)
        · exact Nat.le_of_lt (hfirst _ hmem)
      · exact ih hordered a hr

/-- A finding covers the lines that its terminator silences, but for those that go on with the
    terminator's statement. -/
theorem coversLine_iff (h : findingAfter d t = some f) (hr : r ∈ rows d) :
    f.coversLine r.line = true ↔ silences d t r = true ∧ goesOn d t r = false := by
  have hordered : (deadAfter d t).Pairwise fun a b => a.line < b.line :=
    (rows_pairwise d).filter _
  have hsplit := List.takeWhile_append_dropWhile (p := (·.info.continued)) (l := deadAfter d t)
  have hcover := h
  rw [findingAfter, findingFor] at h
  split at h
  · exact absurd h.symm (Option.some_ne_none f)
  · rename_i first rest hdrop
    obtain rfl := Option.some.inj h
    rw [hdrop] at hsplit
    rw [← hsplit, List.pairwise_append] at hordered
    obtain ⟨-, hlate, hacross⟩ := hordered
    have hfirst : first ∈ deadAfter d t := by
      rw [← hsplit]
      exact List.mem_append_right _ List.mem_cons_self
    have hstop : first.info.continued = false := by
      have := List.head?_dropWhile_not (fun r : Row => r.info.continued) (deadAfter d t)
      rw [hdrop] at this
      simpa using this
    constructor
    · intro hcovers
      obtain ⟨hfrom, hupto⟩ := coversLine_eq_true.mp hcovers
      refine ⟨silenced_of_covered hcover hfrom hupto, ?_⟩
      -- the first line covered does not go on, and it stands between
      rw [Bool.eq_false_iff, ne_eq, goesOn_iff]
      intro hgoes
      obtain ⟨hmem, hsilences⟩ := mem_deadAfter.mp hfirst
      have hcontinued := hgoes first hmem (silences_iff.mp hsilences).1 hfrom
      rw [hstop] at hcontinued
      exact Bool.false_ne_true hcontinued
    · rintro ⟨hsilences, hgoes⟩
      rw [Bool.eq_false_iff, ne_eq, goesOn_iff] at hgoes
      push Not at hgoes
      obtain ⟨s, hs, hafter, hle, hnot⟩ := hgoes
      have hmem {x : Row} (hx : x ∈ rows d) (hx' : silences d t x = true) :
          x ∈ (deadAfter d t).takeWhile (·.info.continued) ++ first :: rest := by
        rw [hsplit]
        exact mem_deadAfter.mpr ⟨hx, hx'⟩
      -- a line that does not go on comes no earlier than the first one covered
      have hsline : first.line ≤ s.line := by
        rcases List.mem_append.mp (hmem hs (silences_of_le hsilences hafter hle)) with hearly | hin
        · exact absurd (List.all_eq_true.mp List.all_takeWhile s hearly) hnot
        · rcases List.mem_cons.mp hin with rfl | hin
          · exact Nat.le_refl _
          · exact Nat.le_of_lt ((List.pairwise_cons.mp hlate).1 s hin)
      have hrin : r ∈ first :: rest := by
        rcases List.mem_append.mp (hmem hr hsilences) with hearly | hin
        · exact absurd (hacross r hearly first List.mem_cons_self)
            (Nat.not_lt.mpr (Nat.le_trans hsline hle))
        · exact hin
      rw [coversLine_eq_true]
      refine ⟨Nat.le_trans hsline hle, ?_⟩
      have hlast := line_le_getLastD hlate first hrin
      rw [List.getLastD_cons] at hlast
      exact hlast

/-! ## Outside of the block -/

theorem leavesBlock_iff : leavesBlock d t r = true
    ↔ t.line < r.line ∧ isOutside t r = true ∧ goesOn d t r = false := by
  rw [leavesBlock, Bool.and_eq_true, Bool.and_eq_true, decide_eq_true_eq, Bool.not_eq_true',
    and_assoc]

/-- A number belongs to one line. -/
theorem row_eq_of_line (hr : r ∈ rows d) (hs : s ∈ rows d) (h : r.line = s.line) : r = s := by
  have hdistinct : (rows d).Pairwise fun a b => a.line ≠ b.line :=
    (rows_pairwise d).imp Nat.ne_of_lt
  have : Std.Symm fun a b : Row => a.line ≠ b.line := ⟨fun _ _ => Ne.symm⟩
  by_contra hne
  exact hdistinct.forall hr hs hne h

/-- Of the lines that pass a test there is a first, if there is any. -/
theorem exists_first {p : Row → Bool} (hr : r ∈ rows d) (hp : p r = true) :
    ∃ s ∈ rows d, p s = true ∧ ∀ x ∈ rows d, p x = true → s.line ≤ x.line := by
  induction hline : r.line using Nat.strong_induction_on generalizing r with
  | _ n ih =>
      by_cases hearlier : ∃ x ∈ rows d, p x = true ∧ x.line < n
      · obtain ⟨x, hx, hpx, hlt⟩ := hearlier
        exact ih x.line hlt hx hpx rfl
      · push Not at hearlier
        exact ⟨r, hr, hp, fun x hx hpx => hline ▸ hearlier x hx hpx⟩

/-- **DEAD BLOCKS**: a line that a finding covers lies in the block of its terminator, unless it
    starts with a keyword.  A finding goes past the block exactly when the first line after the
    terminator's statement that lies outside the block starts with a keyword, other than `case` and
    `default`, and no line before it resumes. -/
theorem dead_code_leaves_block_iff {d : Document} {f : Finding} (hf : f ∈ findings d) :
    ∃ t ∈ rows d, isLivingEnd d t = true ∧ findingAfter d t = some f
      ∧ (∀ r ∈ rows d, f.coversLine r.line = true →
          t.info.depth ≤ r.info.depth ∨ startsPlain r = true)
      ∧ ((∃ r ∈ rows d, f.coversLine r.line = true ∧ r.info.depth < t.info.depth)
        ↔ ∃ r ∈ rows d, leavesBlock d t r = true ∧ startsPlain r = true
          ∧ (∀ s ∈ rows d, leavesBlock d t s = true → r.line ≤ s.line)
          ∧ ∀ s ∈ rows d, t.line < s.line → s.line < r.line →
            resumes s t.info.depth = false) := by
  rw [findings_eq] at hf
  obtain ⟨t, ht, hfinding⟩ := List.mem_filterMap.mp hf
  obtain ⟨ht, hend⟩ := List.mem_filter.mp ht
  refine ⟨t, ht, hend, hfinding, ?_, ?_⟩
  · intro r hr hcovers
    obtain ⟨hafter, hquiet⟩ := silences_iff.mp ((coversLine_iff hfinding hr).mp hcovers).1
    by_cases houtside : isOutside t r = true
    · exact Or.inr (startsPlain_of_isOutside (hquiet r hr hafter (Nat.le_refl _)) houtside)
    · exact Or.inl (Nat.not_lt.mp fun hlt => houtside (decide_eq_true hlt))
  · constructor
    · rintro ⟨r, hr, hcovers, houtside⟩
      obtain ⟨hsilences, hgoes⟩ := (coversLine_iff hfinding hr).mp hcovers
      have hafter := (silences_iff.mp hsilences).1
      have hleaves : leavesBlock d t r = true :=
        leavesBlock_iff.mpr ⟨hafter, decide_eq_true houtside, hgoes⟩
      -- the first line outside comes no later, so it is silenced with this one
      obtain ⟨s, hs, hleaves', hfirst⟩ := exists_first hr hleaves
      obtain ⟨hafter', houtside', -⟩ := leavesBlock_iff.mp hleaves'
      obtain ⟨-, hquiet⟩ := silences_iff.mp (silences_of_le hsilences hafter' (hfirst r hr hleaves))
      refine ⟨s, hs, hleaves', ?_, hfirst, ?_⟩
      · exact startsPlain_of_isOutside (hquiet s hs hafter' (Nat.le_refl _)) houtside'
      · intro x hx hafterx hlt
        exact hquiet x hx hafterx (Nat.le_of_lt hlt)
    · rintro ⟨r, hr, hleaves, hplain, -, hquiet⟩
      obtain ⟨hafter, houtside, hgoes⟩ := leavesBlock_iff.mp hleaves
      refine ⟨r, hr, (coversLine_iff hfinding hr).mpr ⟨?_, hgoes⟩, of_decide_eq_true houtside⟩
      refine silences_iff.mpr ⟨hafter, ?_⟩
      intro s hs hafters hle
      rcases Nat.lt_or_eq_of_le hle with hlt | heq
      · exact hquiet s hs hafters hlt
      · obtain rfl := row_eq_of_line hs hr heq
        exact not_resumes_of_startsPlain hplain _

/-- Here the brace behind `break` closes the block, and the line after it starts with `thread`. -/
theorem dead_code_leaves_loop :
    let d := Document.read ⟨"a.scr".toList⟩
      "main:\nwhile (1) \x7b\nbreak \x7d\nthread main\nend".toList
    let f : Finding := ⟨.unreachableCode "break".toList, .onLine 3 0 11⟩
    f ∈ findings d ∧ ∃ t ∈ rows d, isLivingEnd d t = true ∧ findingAfter d t = some f
      ∧ ∃ r ∈ rows d, leavesBlock d t r = true ∧ startsPlain r = true
        ∧ ∀ s ∈ rows d, leavesBlock d t s = true → r.line ≤ s.line := by
  intro d f
  have hf : f ∈ findings d := by decide +kernel
  have hstops : (rows d).filter (stops d) = [⟨2, ⟨1, false, false⟩,
      ⟨2, 0, .keyword, "break".toList⟩, ⟨2, 6, .operator, ['\x7d']⟩⟩] := by decide +kernel
  obtain ⟨t, ht, hend, hfinding, -, hleaves⟩ := dead_code_leaves_block_iff hf
  -- the thread stops on one line only
  have hmem := List.mem_filter.mpr ⟨ht, (Bool.and_eq_true_iff.mp hend).2⟩
  rw [hstops] at hmem
  obtain rfl := List.mem_singleton.mp hmem
  obtain ⟨r, hr, hleaves, hplain, hfirst, -⟩ := hleaves.mp (by decide +kernel)
  exact ⟨hf, _, ht, hend, hfinding, r, hr, hleaves, hplain, hfirst⟩

/-- The one line on which the thread stops has depth one, and the dead line after it depth zero. -/
theorem dead_code_past_closing_brace :
    let d := Document.read ⟨"a.scr".toList⟩
      "main:\nwhile (1) \x7b\nbreak \x7d\nthread main\nend".toList
    let f : Finding := ⟨.unreachableCode "break".toList, .onLine 3 0 11⟩
    let t : Row := ⟨2, ⟨1, false, false⟩, ⟨2, 0, .keyword, "break".toList⟩,
      ⟨2, 6, .operator, ['\x7d']⟩⟩
    findings d = [f] ∧ (rows d).filter (stops d) = [t]
      ∧ ∃ r ∈ rows d, f.coversLine r.line = true ∧ r.info.depth < t.info.depth := by
  decide +kernel

end Reachability

end ScriptAtlas
