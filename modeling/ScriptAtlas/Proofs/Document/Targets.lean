import ScriptAtlas.Proofs.Document.Ownership
import ScriptAtlas.Proofs.Scan.Statements

/-! # Targets — what a keyword at the end of its line is paired with

    A call, a goto and an include pair a keyword or a directive with the next
    lexeme that is no comment (`IsNext`).  The search for it knows no lines, so a
    keyword that ends its line takes a word of another statement.  The route:

    * what a document lists is said by such pairs (`jump?_eq_some_iff`,
      `include?_eq_some_iff`);
    * the target stands on the line of its keyword unless the keyword ends that
      line (`IsNext.line_eq_iff`);
    * a backslash is a lexeme too: a line that is carried over ends in one, and not
      in a keyword (`not_endsLine_of_continued`), so no target is found across it;
    * hence keyword and target share a statement exactly when they share a line
      (`targets_follow_keywords`). -/

namespace ScriptAtlas

open Progress Text

/-! ## Keywords and targets -/

/-- Whether the lexeme `l`, numbered `j`, is the next after `k`, numbered `i`, that is no
    comment. -/
structure IsNext (ls : List Lexeme) (i : Nat) (k : Lexeme) (j : Nat) (l : Lexeme) : Prop where
  keyword : ls[i]? = some k
  target : ls[j]? = some l
  lt : i < j
  significant : l.isSignificant = true
  comments : ∀ (m : Nat) (c : Lexeme), i < m → m < j → ls[m]? = some c → c.kind = .comment

/-- Whether a jump is made by one of these keywords and the word that follows it. -/
structure IsJump (ls : List Lexeme) (names : List Text) (i : Nat) (k : Lexeme) (j : Nat)
    (l : Lexeme) (jump : Jump) : Prop where
  next : IsNext ls i k j l
  keyword : k.kind = .keyword ∧ lower k.text ∈ names
  word : l.kind = .word
  eq : jump = ⟨l.text, (upTo ls i).owner k, l.span⟩

/-- Whether an include is made by a directive, or by `exec` or `waitexec`, and the path that
    follows it. -/
structure IsInclude (ls : List Lexeme) (i : Nat) (k : Lexeme) (j : Nat) (l : Lexeme)
    (e : Include) : Prop where
  next : IsNext ls i k j l
  keyword : k.kind = .directive ∧ e.kind = .directive
    ∨ k.kind = .keyword ∧ lower k.text ∈ ["exec".toList, "waitexec".toList] ∧ e.kind = .exec
  path : Site.rawPath? l = some e.rawPath
  span : e.span = ⟨k.span.start, l.span.stop⟩

/-- Whether nothing but comments stands after a lexeme on its line. -/
def EndsLine (ls : List Lexeme) (k : Lexeme) : Prop :=
  ∀ l ∈ ls, l.line = k.line → k.column < l.column → l.kind = .comment

namespace Document

/-- Whether `l` stands in the statement of `k`: on its line, or on a later one that every line
    from there on carries over to. -/
def InOneStatement (d : Document) (k l : Lexeme) : Prop :=
  k.line ≤ l.line ∧ ∀ line, k.line < line → line ≤ l.line →
    ∃ info, d.lines[line]? = some info ∧ info.continued = true

/-- What a document pairs, and which of its pairs share a statement. -/
structure PairsTargets (d : Document) : Prop where
  calls : ∀ c, c ∈ d.calls
    ↔ ∃ i k j l, IsJump d.lexemes ["thread".toList, "waitthread".toList] i k j l c
  gotos : ∀ g, g ∈ d.gotos ↔ ∃ i k j l, IsJump d.lexemes ["goto".toList] i k j l g
  includes : ∀ e, e ∈ d.includes ↔ ∃ i k j l, IsInclude d.lexemes i k j l e
  sameLine : ∀ (i : Nat) (k : Lexeme) (j : Nat) (l : Lexeme), IsNext d.lexemes i k j l →
    k.kind = .keyword ∨ k.kind = .directive → (d.InOneStatement k l ↔ k.line = l.line)
  /-- The target is taken from another statement exactly when the keyword ends its line. -/
  leaves : ∀ (i : Nat) (k : Lexeme) (j : Nat) (l : Lexeme), IsNext d.lexemes i k j l →
    k.kind = .keyword ∨ k.kind = .directive → (¬ d.InOneStatement k l ↔ EndsLine d.lexemes k)

end Document

/-! ## Pairs as a document lists them -/

section Sites

variable {ls : List Lexeme} {i : Nat} {k l : Lexeme}

theorem next?_eq_some_iff (hk : ls[i]? = some k) :
    (Site.ofNumber ls i k).next? = some l ↔ ∃ j, IsNext ls i k j l := by
  constructor
  · intro h
    obtain ⟨j, hij, hl, hcomments⟩ := next?_ofNumber h
    exact ⟨j, hk, hl, hij, List.find?_some h, hcomments⟩
  · rintro ⟨j, hjl⟩
    obtain ⟨n, rfl⟩ := Nat.exists_eq_add_of_lt hjl.lt
    have hdrop : (ls.drop (i + 1))[n]? = some l := by
      rw [List.getElem?_drop, ← hjl.target]
      congr 1
      omega
    obtain ⟨hn, hget⟩ := List.getElem?_eq_some_iff.mp hdrop
    show (ls.drop (i + 1)).find? Lexeme.isSignificant = some l
    refine List.find?_eq_some_iff_getElem.mpr ⟨hjl.significant, n, hn, hget, ?_⟩
    intro m hm
    have hkind := hjl.comments (i + 1 + m) (ls.drop (i + 1))[m] (by omega) (by omega)
      (by rw [← List.getElem?_drop, List.getElem?_eq_getElem])
    rw [Lexeme.isSignificant, hkind]
    rfl

theorem jump?_eq_some_iff {names : List Text} {jump : Jump} (hk : ls[i]? = some k) :
    (Site.ofNumber ls i k).jump? names = some jump ↔ ∃ j l, IsJump ls names i k j l jump := by
  rw [Site.jump?]
  constructor
  · intro h
    obtain ⟨hkeyword, h⟩ := Option.ite_none_right_eq_some.mp h
    obtain ⟨hkind, hname⟩ := Bool.and_eq_true_iff.mp hkeyword
    split at h
    · rename_i l hnext
      obtain ⟨hword, hjump⟩ := Option.ite_none_right_eq_some.mp h
      obtain ⟨j, hjl⟩ := (next?_eq_some_iff hk).mp hnext
      exact ⟨j, l, hjl, ⟨beq_iff_eq.mp hkind, List.contains_iff_mem.mp hname⟩,
        beq_iff_eq.mp hword, (Option.some.inj hjump).symm⟩
    · exact absurd h.symm (Option.some_ne_none jump)
  · rintro ⟨j, l, hjump⟩
    have hnext := (next?_eq_some_iff hk).mpr ⟨j, hjump.next⟩
    have hkeyword : ((Site.ofNumber ls i k).lexeme.kind == .keyword
        && names.contains (lower (Site.ofNumber ls i k).lexeme.text)) = true :=
      Bool.and_eq_true_iff.mpr
        ⟨beq_iff_eq.mpr hjump.keyword.1, List.contains_iff_mem.mpr hjump.keyword.2⟩
    rw [if_pos hkeyword, hnext, hjump.eq]
    show (if (l.kind == .word) = true then _ else _) = _
    rw [if_pos (beq_iff_eq.mpr hjump.word)]
    rfl

theorem includeKind?_eq_some_iff {kind : IncludeKind} :
    (Site.ofNumber ls i k).includeKind? = some kind ↔ k.kind = .directive ∧ kind = .directive
      ∨ k.kind = .keyword ∧ lower k.text ∈ ["exec".toList, "waitexec".toList] ∧ kind = .exec := by
  have hname : (sameName k.text "exec".toList || sameName k.text "waitexec".toList) = true
      ↔ lower k.text ∈ ["exec".toList, "waitexec".toList] := by
    rw [sameName, sameName, show lower "exec".toList = "exec".toList by decide,
      show lower "waitexec".toList = "waitexec".toList by decide]
    simp
  rw [Site.includeKind?, show (Site.ofNumber ls i k).lexeme = k from rfl]
  cases hkind : k.kind with
  | directive => simp [eq_comm]
  | keyword =>
      rw [Option.ite_none_right_eq_some, hname]
      simp [eq_comm]
  | _ => simp

theorem include?_eq_some_iff {e : Include} (hk : ls[i]? = some k) :
    (Site.ofNumber ls i k).include? = some e ↔ ∃ j l, IsInclude ls i k j l e := by
  rw [Site.include?]
  constructor
  · intro h
    obtain ⟨kind, hkind, h⟩ := Option.bind_eq_some_iff.mp h
    obtain ⟨l, hnext, h⟩ := Option.bind_eq_some_iff.mp h
    obtain ⟨raw, hraw, h⟩ := Option.bind_eq_some_iff.mp h
    obtain rfl := Option.some.inj h
    obtain ⟨j, hjl⟩ := (next?_eq_some_iff hk).mp hnext
    exact ⟨j, l, hjl, includeKind?_eq_some_iff.mp hkind, hraw, rfl⟩
  · rintro ⟨j, l, h⟩
    refine Option.bind_eq_some_iff.mpr ⟨e.kind, includeKind?_eq_some_iff.mpr h.keyword, ?_⟩
    refine Option.bind_eq_some_iff.mpr ⟨l, (next?_eq_some_iff hk).mpr ⟨j, h.next⟩, ?_⟩
    refine Option.bind_eq_some_iff.mpr ⟨e.rawPath, h.path, ?_⟩
    show some (⟨e.kind, e.rawPath, ⟨k.span.start, l.span.stop⟩⟩ : Include) = some e
    rw [← h.span]

end Sites

/-! ## Lines of keywords and targets -/

section Text

variable {t : Text} {i j : Nat} {k l : Lexeme}

theorem startsBefore_of_lt (hi : (scan t).lexemes[i]? = some k)
    (hj : (scan t).lexemes[j]? = some l) (hij : i < j) : k.StartsBefore l := by
  obtain ⟨hi', rfl⟩ := List.getElem?_eq_some_iff.mp hi
  obtain ⟨hj', rfl⟩ := List.getElem?_eq_some_iff.mp hj
  exact List.pairwise_iff_getElem.mp (scan_lexemes_ordered t) i j hi' hj' hij

/-- The target stands on the line of its keyword unless the keyword ends that line. -/
theorem IsNext.line_eq_iff (h : IsNext (scan t).lexemes i k j l) :
    k.line = l.line ↔ ¬ EndsLine (scan t).lexemes k := by
  constructor
  · intro hline hends
    have hcolumn : k.column < l.column := by
      rcases startsBefore_of_lt h.keyword h.target h.lt with hlt | ⟨-, hlt⟩
      · omega
      · exact hlt
    have hcomment := hends l (List.mem_of_getElem? h.target) hline.symm hcolumn
    have hsignificant := h.significant
    rw [Lexeme.isSignificant, hcomment] at hsignificant
    exact Bool.noConfusion hsignificant
  · -- what stands after the keyword on its line stands before a target on a later one
    intro hnot
    by_contra hline
    apply hnot
    intro m hm hmline hcolumn
    obtain ⟨n, hn⟩ := List.mem_iff_getElem?.mp hm
    have hlater : i < n := by
      rcases Nat.lt_trichotomy n i with hlt | rfl | hlt
      · rcases startsBefore_of_lt hn h.keyword hlt with hbefore | ⟨-, hbefore⟩ <;> omega
      · obtain rfl : k = m := Option.some.inj (h.keyword.symm.trans hn)
        omega
      · exact hlt
    have hearlier : n < j := by
      by_contra hge
      have hle := line_le_of_le h.target hn (by omega)
      have hkl := line_le_of_le h.keyword h.target (Nat.le_of_lt h.lt)
      omega
    exact h.comments n m hlater hearlier hn

/-- A line that the next one goes on with ends in a backslash. -/
theorem wordsOn_of_continued {line : Nat} {info : LineInfo}
    (hinfo : (scan t).lines[line + 1]? = some info) (hcontinued : info.continued = true) :
    ∃ earlier b, (scan t).wordsOn line = earlier ++ [b] ∧ b.kind = .operator := by
  rw [Scan.getElem?_lines_scan] at hinfo
  obtain ⟨row, hrow, rfl⟩ := Option.map_eq_some_iff.mp hinfo
  have hline := (List.getElem?_eq_some_iff.mp hrow).1
  have hlast : ((scan t).wordsOn line).getLast?.any (isSign "\\") = true :=
    (Scan.rowEffect_line (Nat.lt_of_succ_lt hline)).continued.symm.trans hcontinued
  obtain ⟨b, hb, hsign⟩ := (Option.any_eq_true _ _).mp hlast
  obtain ⟨earlier, hearlier⟩ := List.getLast?_eq_some_iff.mp hb
  exact ⟨earlier, b, hearlier, (isSign_iff.mp hsign).1⟩

/-- No keyword ends a line that the next one goes on with. -/
theorem not_endsLine_of_continued {info : LineInfo} (hk : k ∈ (scan t).lexemes)
    (hkind : k.kind = .keyword ∨ k.kind = .directive)
    (hinfo : (scan t).lines[k.line + 1]? = some info) (hcontinued : info.continued = true) :
    ¬ EndsLine (scan t).lexemes k := by
  intro hends
  obtain ⟨earlier, b, hwords, hoperator⟩ := wordsOn_of_continued hinfo hcontinued
  have hordered : (earlier ++ [b]).Pairwise Lexeme.StartsBefore :=
    hwords ▸ (scan_lexemes_ordered t).filter _
  have hkwords : k ∈ earlier ++ [b] := by
    rw [← hwords]
    refine List.mem_filter.mpr ⟨hk, ?_⟩
    rcases hkind with hkind | hkind <;> simp [Lexeme.isSignificant, Kind.isSignificant, hkind]
  obtain ⟨hb, hbline⟩ : b ∈ (scan t).lexemes ∧ b.line = k.line := by
    have hmem : b ∈ (scan t).wordsOn k.line := hwords ▸ List.mem_concat_self
    obtain ⟨hmem, hp⟩ := List.mem_filter.mp hmem
    exact ⟨hmem, beq_iff_eq.mp (Bool.and_eq_true_iff.mp hp).1⟩
  have hcolumn : k.column < b.column := by
    rcases List.mem_append.mp hkwords with hearlier | hlast
    · rcases (List.pairwise_append.mp hordered).2.2 k hearlier b (List.mem_singleton_self b)
        with hlt | ⟨-, hlt⟩
      · omega
      · exact hlt
    · obtain rfl := List.mem_singleton.mp hlast
      rcases hkind with hkind | hkind <;> exact Kind.noConfusion (hkind.symm.trans hoperator)
  exact Kind.noConfusion ((hends b hb hbline hcolumn).symm.trans hoperator)

/-- Keyword and target share a statement exactly when they share a line. -/
theorem IsNext.inOneStatement_iff (path : Path) (h : IsNext (scan t).lexemes i k j l)
    (hkind : k.kind = .keyword ∨ k.kind = .directive) :
    (Document.read path t).InOneStatement k l ↔ k.line = l.line := by
  constructor
  · rintro ⟨hle, hgoesOn⟩
    rcases Nat.eq_or_lt_of_le hle with hline | hlt
    · exact hline
    · obtain ⟨info, hinfo, hcontinued⟩ := hgoesOn (k.line + 1) (Nat.lt_succ_self _) hlt
      exact h.line_eq_iff.mpr
        (not_endsLine_of_continued (List.mem_of_getElem? h.keyword) hkind hinfo hcontinued)
  · intro hline
    refine ⟨Nat.le_of_eq hline, ?_⟩
    intro line hafter hupto
    omega

end Text

/-! ## The pairs of a document -/

namespace Document

/-- What each keyword selects by its pairs is selected from the sites by all pairs. -/
theorem mem_filterMap_pairs {β : Type} {t : Text} {f : Site → Option β} {b : β}
    {R : Nat → Lexeme → Nat → Lexeme → Prop}
    (hkeyword : ∀ {i k j l}, R i k j l → (scan t).lexemes[i]? = some k)
    (hpairs : ∀ {i k}, (scan t).lexemes[i]? = some k →
      (f (Site.ofNumber (scan t).lexemes i k) = some b ↔ ∃ j l, R i k j l)) :
    b ∈ (sites t).filterMap f ↔ ∃ i k j l, R i k j l := by
  refine mem_filterMap_sites.trans (exists_congr fun i => exists_congr fun k => ?_)
  constructor
  · rintro ⟨hk, hb⟩
    exact (hpairs hk).mp hb
  · rintro ⟨j, l, h⟩
    have hk := hkeyword h
    exact ⟨hk, (hpairs hk).mpr ⟨j, l, h⟩⟩

/-- A document lists exactly the pairs of a keyword and the lexeme that follows it, comments left
    out.  The two are of one statement when they stand on one line, and of two statements when
    the keyword ends its line. -/
theorem targets_follow_keywords (path : Path) (t : Text) : (read path t).PairsTargets where
  calls := fun _ => mem_filterMap_pairs (fun h => h.next.keyword) jump?_eq_some_iff
  gotos := fun _ => mem_filterMap_pairs (fun h => h.next.keyword) jump?_eq_some_iff
  includes := fun _ => mem_filterMap_pairs (fun h => h.next.keyword) include?_eq_some_iff
  sameLine := fun _ _ _ _ h hkind => h.inOneStatement_iff path hkind
  leaves := by
    intro i k j l h hkind
    rw [h.inOneStatement_iff path hkind, h.line_eq_iff]
    exact not_not

/-- A call on one line is of one statement; a `goto` that ends its line takes the next word, past
    a comment; a backslash after a keyword hides the word on the next line. -/
theorem targets_of_one_line_and_of_two :
    let t : Text := "main:\nthread helper\nthread \\\nother\ngoto // later\nwait 1\nend".toList
    let d := read ⟨[]⟩ t
    let started : Lexeme := ⟨1, 0, .keyword, "thread".toList⟩
    let helper : Lexeme := ⟨1, 7, .word, "helper".toList⟩
    let left : Lexeme := ⟨4, 0, .keyword, "goto".toList⟩
    let wait : Lexeme := ⟨5, 0, .word, "wait".toList⟩
    d.calls = [⟨helper.text, some 0, helper.span⟩] ∧ d.gotos = [⟨wait.text, some 0, wait.span⟩]
      ∧ d.InOneStatement started helper ∧ ¬ d.InOneStatement left wait := by
  intro t d started helper left wait
  obtain ⟨hcalls, hgotos, hstarted, hhelper, hleft, hcomment, hwait⟩ :
      d.calls = [⟨helper.text, some 0, helper.span⟩]
        ∧ d.gotos = [⟨wait.text, some 0, wait.span⟩]
        ∧ d.lexemes[2]? = some started ∧ d.lexemes[3]? = some helper
        ∧ d.lexemes[7]? = some left
        ∧ d.lexemes[8]? = some ⟨4, 5, .comment, "// later".toList⟩
        ∧ d.lexemes[9]? = some wait := by decide +kernel
  have hcall : IsNext d.lexemes 2 started 3 helper :=
    ⟨hstarted, hhelper, by omega, rfl, fun m c hm hm' => by omega⟩
  have hgoto : IsNext d.lexemes 7 left 9 wait := by
    refine ⟨hleft, hwait, by omega, rfl, ?_⟩
    intro m c hm hm' hc
    obtain rfl : m = 8 := by omega
    rw [← Option.some.inj (hcomment.symm.trans hc)]
  have hpairs : d.PairsTargets := targets_follow_keywords ⟨[]⟩ t
  refine ⟨hcalls, hgotos, (hpairs.sameLine 2 started 3 helper hcall (Or.inl rfl)).mpr rfl, ?_⟩
  rw [hpairs.sameLine 7 left 9 wait hgoto (Or.inl rfl)]
  exact Nat.ne_of_lt (Nat.lt_succ_self 4)

/-- A `thread` left at the end of its line starts the first word of the next statement. -/
theorem call_into_next_statement :
    let d := read ⟨[]⟩ "main:\nthread\nwait 1\nend".toList
    let c : Jump := ⟨"wait".toList, some 0, .onLine 2 0 4⟩
    c ∈ d.calls ∧ ∀ (i : Nat) (k : Lexeme) (j : Nat) (l : Lexeme),
      IsJump d.lexemes ["thread".toList, "waitthread".toList] i k j l c
        → ¬ d.InOneStatement k l := by
  intro d c
  obtain ⟨hcall, hkeywords, hlines⟩ : c ∈ d.calls
      ∧ d.lexemes.filter (·.kind == .keyword) = [⟨1, 0, .keyword, "thread".toList⟩]
      ∧ d.lines[2]? = some ⟨0, false, false⟩ := by decide +kernel
  refine ⟨hcall, ?_⟩
  rintro i k j l hjump ⟨-, hgoesOn⟩
  have hk : k ∈ d.lexemes.filter (·.kind == .keyword) :=
    List.mem_filter.mpr ⟨List.mem_of_getElem? hjump.next.keyword, beq_iff_eq.mpr hjump.keyword.1⟩
  rw [hkeywords] at hk
  obtain rfl := List.mem_singleton.mp hk
  have hl : l.line = 2 := congrArg (·.span.start.line) hjump.eq.symm
  obtain ⟨info, hinfo, hcontinued⟩ := hgoesOn 2 (Nat.lt_succ_self 1) (Nat.le_of_eq hl.symm)
  obtain rfl := Option.some.inj (hlines.symm.trans hinfo)
  exact Bool.noConfusion hcontinued

end Document

end ScriptAtlas
