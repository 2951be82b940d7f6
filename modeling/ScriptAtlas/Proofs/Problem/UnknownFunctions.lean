import ScriptAtlas.Proofs.Document.LineLookup
import ScriptAtlas.Proofs.Scan.Kinds
import ScriptAtlas.Proofs.Scan.Reading
import ScriptAtlas.Proofs.Sorting
import ScriptAtlas.Proofs.Symbols.Lookup
import ScriptAtlas.Proofs.Workspace.Consistency

/-! # Unknown functions — calls by the characters and by the lexemes

    The calls of a script are found twice over: names before a parenthesis are
    looked for in the characters of each row, comments and strings included,
    and what is found counts if a word starts there.  The route:

    * by the characters, a name is a candidate where no other name runs up to it
      and blanks and a parenthesis follow (`mem_candidatesFrom`);
    * a word is spelled just so, and the parenthesis behind it is the next lexeme
      (`opensParenthesis_eq`), so the candidates at which a word starts are the
      words before a parenthesis (`mem_candidates_iff`);
    * both go by line and column, so the calls of a script are those of its sites
      (`ofScript_eq`). -/

namespace ScriptAtlas

open Text Vocabulary Scan

/-! ## Calls by the lexemes -/

namespace Site

/-- The next lexeme on the line. -/
def nextOnLine? (s : Site) : Option Lexeme := s.after.find? (·.line == s.lexeme.line)

/-- The previous lexeme on the line, comments left out. -/
def previousOnLine? (s : Site) : Option Lexeme :=
  s.before.find? fun l => l.isSignificant && l.line == s.lexeme.line

/-- Whether a function is called here: a bare word stands right before an opening parenthesis, and
    what stands before the word does not make it a thread, label or entity. -/
def isCall (s : Site) : Bool :=
  s.lexeme.kind == .word && s.nextOnLine?.any (isSign "(")
    && !s.previousOnLine?.any Calls.namesTarget

end Site

/-! ## Candidates -/

namespace Calls

variable {column : Nat} {x t : Text} {e : Nat × Text}

/-- Whether a candidate starts here, behind what has been passed. -/
def startsCandidate (passed t : Text) : Bool :=
  !insideName passed && Shape.startsIdentifier t && opensParenthesis (t.drop (Shape.word t).length)

/-- A character adds the candidate that starts with it. -/
theorem candidatesFrom_cons (column : Nat) (x : Text) (c : Char) (cs : Text) :
    candidatesFrom column (insideName x) (c :: cs)
      = (if startsCandidate x (c :: cs) then [(column, Shape.word (c :: cs))] else [])
        ++ candidatesFrom (column + 1) (insideName (x ++ [c])) cs := by
  rw [candidatesFrom, startsCandidate, insideName_concat, Shape.startsIdentifier_cons]
  cases hstart : isIdentifierStart c with
  | false => simp
  | true =>
      cases insideName x with
      | true => simp [isIdentifierChar_of_isIdentifierStart hstart]
      | false =>
          show (if opensParenthesis ((c :: cs).drop (Shape.word (c :: cs)).length) then _ else _)
            = (if opensParenthesis ((c :: cs).drop (Shape.word (c :: cs)).length) then _ else _)
              ++ candidatesFrom (column + 1) true cs
          cases opensParenthesis ((c :: cs).drop (Shape.word (c :: cs)).length) <;> rfl

/-- A name is a candidate where no other name runs up to it and a parenthesis follows. -/
theorem mem_candidatesFrom : e ∈ candidatesFrom column (insideName x) t
    ↔ ∃ y z, y ++ z = t ∧ startsCandidate (x ++ y) z = true
      ∧ e = (column + y.length, Shape.word z) := by
  -- whether a name goes on depends on all that was passed, so `x` grows with the column
  induction t generalizing column x with
  | nil =>
      constructor
      · exact fun he => absurd he List.not_mem_nil
      · rintro ⟨y, z, hsplit, hstarts, -⟩
        obtain ⟨rfl, rfl⟩ := List.append_eq_nil_iff.mp hsplit
        simp [startsCandidate, Shape.startsIdentifier] at hstarts
  | cons c cs ih =>
      rw [candidatesFrom_cons, List.mem_append, ih]
      constructor
      · rintro (he | ⟨y, z, rfl, hstarts, rfl⟩)
        · split at he
          · exact ⟨[], c :: cs, rfl, by rwa [List.append_nil], List.mem_singleton.mp he⟩
          · exact absurd he List.not_mem_nil
        · refine ⟨c :: y, z, rfl, ?_, ?_⟩
          · rwa [List.append_cons]
          · rw [List.length_cons, Nat.add_right_comm, Nat.add_assoc]
      · rintro ⟨y, z, hsplit, hstarts, rfl⟩
        cases y with
        | nil =>
            obtain rfl : z = c :: cs := hsplit
            rw [List.append_nil] at hstarts
            rw [if_pos hstarts]
            exact Or.inl List.mem_cons_self
        | cons b y =>
            obtain ⟨rfl, rfl⟩ := List.cons.inj hsplit
            rw [List.append_cons] at hstarts
            refine Or.inr ⟨y, z, rfl, hstarts, ?_⟩
            rw [List.length_cons, Nat.add_right_comm, Nat.add_assoc]

/-- Candidates go from left to right. -/
theorem candidatesFrom_pairwise :
    (candidatesFrom column (insideName x) t).Pairwise fun e f => e.1 < f.1 := by
  induction t generalizing column x with
  | nil => exact List.Pairwise.nil
  | cons c cs ih =>
      rw [candidatesFrom_cons]
      split
      · refine List.pairwise_cons.mpr ⟨?_, ih⟩
        intro f hf
        obtain ⟨y, z, -, -, rfl⟩ := mem_candidatesFrom.mp hf
        show column < column + 1 + y.length
        omega
      · exact ih

/-! ## Words at a column -/

theorem getLast?_cons_or (m : Lexeme) (before : List Lexeme) (earlier : Option Lexeme) :
    (m :: before).getLast?.or earlier = before.getLast?.or (some m) := by
  rw [List.getLast?_cons]
  cases before.getLast? <;> rfl

/-- The word at a column is found, with the lexeme before it. -/
theorem wordAt?_eq_some_iff {ls : List Lexeme}
    (hordered : ls.Pairwise fun a b => a.column < b.column) {earlier previous : Option Lexeme}
    {l : Lexeme} : wordAt? column earlier ls = some (previous, l)
      ↔ ∃ before after, ls = before ++ l :: after ∧ l.column = column ∧ l.kind = .word
        ∧ previous = before.getLast?.or earlier := by
  induction ls generalizing earlier with
  | nil => simp [wordAt?]
  | cons m ls ih =>
      obtain ⟨hfirst, hordered⟩ := List.pairwise_cons.mp hordered
      rw [wordAt?]
      split
      · rename_i hm
        rw [Bool.and_eq_true, beq_iff_eq, beq_iff_eq] at hm
        constructor
        · intro h
          obtain ⟨rfl, rfl⟩ := Prod.mk.inj (Option.some.inj h)
          exact ⟨[], ls, rfl, hm.1, hm.2, rfl⟩
        · rintro ⟨before, after, hsplit, hcolumn, -, rfl⟩
          cases before with
          | nil =>
              obtain ⟨rfl, -⟩ := List.cons.inj hsplit
              rfl
          | cons b before =>
              -- what comes later stands further to the right
              obtain ⟨rfl, rfl⟩ := List.cons.inj hsplit
              have hlt := hfirst l (List.mem_append_right _ List.mem_cons_self)
              rw [hm.1, hcolumn] at hlt
              exact absurd hlt (Nat.lt_irrefl column)
      · rename_i hm
        rw [ih hordered]
        constructor
        · rintro ⟨before, after, rfl, hcolumn, hkind, rfl⟩
          exact ⟨m :: before, after, rfl, hcolumn, hkind, (getLast?_cons_or m before earlier).symm⟩
        · rintro ⟨before, after, hsplit, hcolumn, hkind, rfl⟩
          cases before with
          | nil =>
              obtain ⟨rfl, -⟩ := List.cons.inj hsplit
              rw [hcolumn, hkind, beq_self_eq_true, beq_self_eq_true] at hm
              exact absurd rfl hm
          | cons b before =>
              obtain ⟨rfl, rfl⟩ := List.cons.inj hsplit
              exact ⟨before, after, rfl, hcolumn, hkind, getLast?_cons_or _ before earlier⟩

/-- The call at a candidate, given the lexemes of the row other than comments. -/
def callAt? (significant : List Lexeme) (candidate : Nat × Text) : Option (Lexeme × Text) :=
  (wordAt? candidate.1 none significant).bind fun found =>
    if found.1.any namesTarget then none else some (found.2, candidate.2)

theorem ofRow_eq (row : Text) (significant : List Lexeme) :
    ofRow row significant = (candidates row).filterMap (callAt? significant) := by
  refine List.filterMap_congr ?_
  rintro ⟨column, name⟩ -
  dsimp only [callAt?]
  cases wordAt? column none significant <;> rfl

theorem callAt?_eq_some_iff {significant : List Lexeme} {l : Lexeme} {name : Text} :
    callAt? significant e = some (l, name) ↔ ∃ previous,
      wordAt? e.1 none significant = some (previous, l) ∧ previous.any namesTarget = false
        ∧ e.2 = name := by
  rw [callAt?, Option.bind_eq_some_iff]
  constructor
  · rintro ⟨⟨previous, m⟩, hfound, hcall⟩
    rw [Option.ite_none_left_eq_some] at hcall
    obtain ⟨hprevious, hcall⟩ := hcall
    obtain ⟨rfl, rfl⟩ := Prod.mk.inj (Option.some.inj hcall)
    exact ⟨previous, hfound, Bool.eq_false_iff.mpr hprevious, rfl⟩
  · rintro ⟨previous, hfound, hprevious, rfl⟩
    exact ⟨(previous, l), hfound, if_neg (Bool.eq_false_iff.mp hprevious)⟩

/-! ## The parenthesis behind a word -/

/-- Behind a lexeme, blanks and a parenthesis come next exactly when the next lexeme is the
    parenthesis. -/
theorem opensParenthesis_eq {c : Context} {v : Text} {ps : List Piece} (h : Reads c v ps)
    (hmidway : c.IsMidway v) (line column : Nat) :
    opensParenthesis v = (Piece.layOut line column ps).head?.any (isSign "(") := by
  induction h generalizing column with
  | nil => rfl
  | gap ha _ ih =>
      rw [opensParenthesis, List.dropWhile_cons_of_pos ha]
      exact ih hmidway.afterGap _
  | @cut c a rest v ps ha hv _ _ =>
      obtain ⟨k, u, qs, hpieces, hheads⟩ := (cut_spelled c hv).pieces.first hmidway hv
      rw [opensParenthesis, List.dropWhile_cons_of_neg (Bool.eq_false_iff.mp ha), hpieces]
      exact (hheads.isSign_eq rfl rfl line column).symm

/-- At a word of a row, the candidate is the word, if the next lexeme is a parenthesis. -/
theorem mem_candidates_iff (s : State) {row u name : Text} {ps qs : List Piece} (line column : Nat)
    (hpieces : (cutRow s row).pieces = ps ++ .lexeme .word u :: qs) :
    ((Piece.texts ps).length, name) ∈ candidates row
      ↔ name = u ∧ (Piece.layOut line column qs).head?.any (isSign "(") = true := by
  have hrow : Piece.texts ps ++ (u ++ Piece.texts qs) = row := by
    have htexts := (cutRow_tiles s row).1
    rwa [hpieces, Piece.texts_append, Piece.texts_cons] at htexts
  obtain ⟨hname, hinside, c, hmidway, hreads⟩ := word_spelled s hpieces
  have hcandidate : startsCandidate (Piece.texts ps) (u ++ Piece.texts qs)
      = (Piece.layOut line column qs).head?.any (isSign "(") := by
    rw [startsCandidate, hinside, hname.startsIdentifier_append, hname.word_append, List.drop_left,
      opensParenthesis_eq hreads hmidway line column]
    rfl
  have hcandidates : ((Piece.texts ps).length, name) ∈ candidates row ↔ _ :=
    mem_candidatesFrom (x := [])
  rw [hcandidates, ← hcandidate]
  constructor
  · rintro ⟨y, z, hsplit, hstarts, he⟩
    obtain ⟨hlength, rfl⟩ := Prod.mk.inj he
    rw [Nat.zero_add] at hlength
    obtain ⟨rfl, rfl⟩ := List.append_inj (hsplit.trans hrow.symm) hlength.symm
    exact ⟨hname.word_append, hstarts⟩
  · rintro ⟨rfl, hstarts⟩
    refine ⟨Piece.texts ps, name ++ Piece.texts qs, hrow, hstarts, ?_⟩
    rw [hname.word_append, Nat.zero_add]

end Calls

/-! ## The calls of a script -/

variable {t : Text} {s : Site}

/-- A site stands among the lexemes. -/
theorem lexemes_eq_of_mem_sites (hs : s ∈ Document.sites t) :
    (scan t).lexemes = s.before.reverse ++ s.lexeme :: s.after := by
  obtain ⟨i, l, hl, rfl⟩ := mem_sites.mp hs
  obtain ⟨hi, rfl⟩ := List.getElem?_eq_some_iff.mp hl
  show _ = (List.take i _).reverse.reverse ++ (scan t).lexemes[i] :: List.drop (i + 1) _
  rw [List.reverse_reverse, List.getElem_cons_drop, List.take_append_drop]

/-- Every lexeme has a site. -/
theorem exists_site_of_lexemes {before after : List Lexeme} {l : Lexeme}
    (h : (scan t).lexemes = before ++ l :: after) :
    ∃ s ∈ Document.sites t, s.lexeme = l ∧ s.before = before.reverse ∧ s.after = after := by
  refine ⟨.ofNumber (scan t).lexemes before.length l, mem_sites.mpr ⟨before.length, l, ?_, rfl⟩,
    rfl, ?_, ?_⟩
  · rw [h, List.getElem?_append_right (Nat.le_refl _), Nat.sub_self]
    rfl
  · show (List.take _ _).reverse = _
    rw [h, List.take_left]
  · show List.drop _ _ = _
    rw [h, ← List.drop_drop, List.drop_left]
    rfl

theorem Site.previousOnLine?_eq (s : Site) : s.previousOnLine?
    = (s.before.reverse.filter fun l => l.isSignificant && l.line == s.lexeme.line).getLast? := by
  rw [previousOnLine?, List.filter_reverse, List.getLast?_reverse, List.head?_filter]

namespace Calls

/-- At a word, the candidate is the word, if the next lexeme on the line is a parenthesis. -/
theorem exists_row_of_word (hs : s ∈ Document.sites t) (hkind : s.lexeme.kind = .word) :
    ∃ row, (rows t)[s.lexeme.line]? = some row ∧ ∀ name,
      (s.lexeme.column, name) ∈ candidates row
        ↔ name = s.lexeme.text ∧ s.nextOnLine?.any (isSign "(") = true := by
  obtain ⟨row, ps, qs, hrow, hpieces, -, hafter, hcolumn, -⟩ :=
    split_line_at_lexeme (lexemes_eq_of_mem_sites hs)
  rw [hkind] at hpieces
  have hnext : s.nextOnLine?
      = (Piece.layOut s.lexeme.line s.lexeme.endColumn qs).head? := by
    rw [Site.nextOnLine?, ← List.head?_filter, hafter]
  refine ⟨row, hrow, fun name => ?_⟩
  rw [hcolumn, hnext]
  exact mem_candidates_iff _ _ _ hpieces

/-- The word at a place is that of the site there, and what stands before it is what stands before
    the site. -/
theorem wordAt?_line_iff {line column : Nat} {previous : Option Lexeme} {l : Lexeme} :
    wordAt? column none (((scan t).lexemes.filter (·.line == line)).filter Lexeme.isSignificant)
        = some (previous, l)
      ↔ ∃ s ∈ Document.sites t, s.lexeme = l ∧ l.line = line ∧ l.column = column
        ∧ l.kind = .word ∧ previous = s.previousOnLine? := by
  -- on one line columns increase, so at most one word starts at a column
  have hordered : (((scan t).lexemes.filter (·.line == line)).filter Lexeme.isSignificant).Pairwise
      fun a b => a.column < b.column := by
    refine (((scan_lexemes_ordered t).filter _).filter _).imp_of_mem ?_
    intro a b ha hb hab
    have hline : ∀ {l : Lexeme}, l ∈ ((scan t).lexemes.filter (·.line == line)).filter
        Lexeme.isSignificant → l.line = line := fun hl =>
      beq_iff_eq.mp (List.mem_filter.mp (List.mem_filter.mp hl).1).2
    rcases hab with hlt | ⟨-, hcolumn⟩
    · rw [hline ha, hline hb] at hlt
      exact absurd hlt (Nat.lt_irrefl line)
    · exact hcolumn
  rw [wordAt?_eq_some_iff hordered, List.filter_filter]
  constructor
  · rintro ⟨before, after, hsplit, rfl, hkind, rfl⟩
    obtain ⟨l₁, rest, hlexemes, rfl, hrest⟩ := List.filter_eq_append_iff.mp hsplit
    obtain ⟨l₂, later, rfl, hskipped, hl, -⟩ := List.filter_eq_cons_iff.mp hrest
    rw [← List.append_assoc] at hlexemes
    obtain ⟨s, hs, rfl, hbefore, -⟩ := exists_site_of_lexemes hlexemes
    obtain rfl : s.lexeme.line = line := beq_iff_eq.mp (Bool.and_eq_true_iff.mp hl).2
    refine ⟨s, hs, rfl, rfl, rfl, hkind, ?_⟩
    rw [s.previousOnLine?_eq, hbefore, List.reverse_reverse, List.filter_append,
      List.filter_eq_nil_iff.mpr hskipped, List.append_nil, Option.or_none]
  · rintro ⟨s, hs, rfl, rfl, rfl, hkind, rfl⟩
    have hl : (s.lexeme.isSignificant && s.lexeme.line == s.lexeme.line) = true := by
      rw [beq_self_eq_true, Bool.and_true, Lexeme.isSignificant, hkind]
      rfl
    rw [lexemes_eq_of_mem_sites hs, List.filter_append, List.filter_cons, if_pos hl]
    exact ⟨_, _, rfl, rfl, hkind, by rw [s.previousOnLine?_eq, Option.or_none]⟩

/-- The calls of a script are those of its sites. -/
theorem mem_ofScript_iff {path : Path} {e : Lexeme × Text} :
    e ∈ ofScript (Document.read path t) t
      ↔ ∃ s ∈ Document.sites t, s.isCall = true ∧ e = (s.lexeme, s.lexeme.text) := by
  obtain ⟨l, name⟩ := e
  rw [ofScript, List.mem_flatMap]
  constructor
  · rintro ⟨⟨row, line⟩, hrow, he⟩
    have hrow : (rows t)[line]? = some row := List.mem_zipIdx_iff_getElem?.mp hrow
    dsimp only at he
    rw [Document.lineLexemes_read, ofRow_eq, List.mem_filterMap] at he
    obtain ⟨⟨column, name'⟩, hcandidate, hcall⟩ := he
    obtain ⟨previous, hfound, hprevious, rfl⟩ := callAt?_eq_some_iff.mp hcall
    obtain ⟨s, hs, rfl, rfl, rfl, hkind, rfl⟩ := wordAt?_line_iff.mp hfound
    obtain ⟨row', hrow', hcandidates⟩ := exists_row_of_word hs hkind
    obtain rfl : row = row' := Option.some.inj (hrow.symm.trans hrow')
    obtain ⟨rfl, hnext⟩ := (hcandidates name').mp hcandidate
    refine ⟨s, hs, ?_, rfl⟩
    rw [Site.isCall, hkind, hnext, hprevious]
    rfl
  · rintro ⟨s, hs, hcall, he⟩
    obtain ⟨rfl, rfl⟩ := Prod.mk.inj he
    rw [Site.isCall, Bool.and_eq_true, Bool.and_eq_true, beq_iff_eq, Bool.not_eq_true'] at hcall
    obtain ⟨⟨hkind, hnext⟩, hprevious⟩ := hcall
    obtain ⟨row, hrow, hcandidates⟩ := exists_row_of_word hs hkind
    refine ⟨(row, s.lexeme.line), List.mem_zipIdx_iff_getElem?.mpr hrow, ?_⟩
    dsimp only
    rw [Document.lineLexemes_read, ofRow_eq, List.mem_filterMap]
    refine ⟨_, (hcandidates s.lexeme.text).mpr ⟨rfl, hnext⟩, callAt?_eq_some_iff.mpr ?_⟩
    exact ⟨s.previousOnLine?, wordAt?_line_iff.mpr ⟨s, hs, rfl, rfl, rfl, hkind, rfl⟩, hprevious,
      rfl⟩

/-- The calls of a script go by line and column. -/
theorem ofScript_pairwise (path : Path) (t : Text) :
    (ofScript (Document.read path t) t).Pairwise fun e f => e.1.StartsBefore f.1 := by
  have hplace : ∀ {line : Nat} {c : Nat × Text} {e : Lexeme × Text},
      callAt? (((Document.read path t).lineLexemes line).filter Lexeme.isSignificant) c = some e →
      e.1.line = line ∧ e.1.column = c.1 := by
    rintro line c ⟨l, name⟩ hcall
    rw [Document.lineLexemes_read] at hcall
    obtain ⟨previous, hfound, -, -⟩ := callAt?_eq_some_iff.mp hcall
    obtain ⟨s, -, rfl, hline, hcolumn, -⟩ := wordAt?_line_iff.mp hfound
    exact ⟨hline, hcolumn⟩
  rw [ofScript, List.pairwise_flatMap]
  constructor
  · rintro ⟨row, line⟩ -
    dsimp only
    rw [ofRow_eq, List.pairwise_filterMap]
    refine (candidatesFrom_pairwise (x := [])).imp ?_
    intro c d hlt e he f hf
    obtain ⟨hline, hcolumn⟩ := hplace he
    obtain ⟨hline', hcolumn'⟩ := hplace hf
    exact Or.inr ⟨hline.trans hline'.symm, by rwa [hcolumn, hcolumn']⟩
  · have hlines : (rows t).zipIdx.Pairwise fun a b => a.2 < b.2 := by
      refine List.pairwise_map.mp ?_
      rw [List.zipIdx_map_snd]
      exact List.pairwise_lt_range'
    refine hlines.imp ?_
    rintro ⟨row, line⟩ ⟨row', line'⟩ hlt e he f hf
    dsimp only at he hf hlt
    rw [ofRow_eq, List.mem_filterMap] at he hf
    obtain ⟨c, -, he⟩ := he
    obtain ⟨d, -, hf⟩ := hf
    refine Or.inl ?_
    rw [(hplace he).1, (hplace hf).1]
    exact hlt

/-- The calls of a script, listed by its sites. -/
theorem ofScript_eq (path : Path) (t : Text) : ofScript (Document.read path t) t
    = ((Document.sites t).filter Site.isCall).map fun s => (s.lexeme, s.lexeme.text) := by
  have hsites : (((Document.sites t).filter Site.isCall).map
      fun s => (s.lexeme, s.lexeme.text)).Pairwise fun e f => e.1.StartsBefore f.1 :=
    List.pairwise_map.mpr ((sites_ordered t).filter _)
  have hne : ∀ {e f : Lexeme × Text}, e.1.StartsBefore f.1 → e ≠ f := by
    rintro e f (hline | ⟨-, hcolumn⟩) rfl
    · exact Nat.lt_irrefl _ hline
    · exact Nat.lt_irrefl _ hcolumn
  have hmem : ∀ e, e ∈ ofScript (Document.read path t) t
      ↔ e ∈ ((Document.sites t).filter Site.isCall).map fun s => (s.lexeme, s.lexeme.text) := by
    intro e
    rw [mem_ofScript_iff, List.mem_map]
    simp only [List.mem_filter, and_assoc, eq_comm]
  have hperm := (List.perm_ext_iff_of_nodup ((ofScript_pairwise path t).imp hne)
    (hsites.imp hne)).mpr hmem
  refine hperm.eq_of_pairwise ?_ (ofScript_pairwise path t) hsites
  rintro e f - - (hline | ⟨hline, hcolumn⟩) (hline' | ⟨hline', hcolumn'⟩) <;> omega

end Calls

/-! ## Unknown functions -/

/-- Whether a script knows a function of a name: the language or the settings do, a tracked script
    has such a thread, or the script has such a label. -/
def Workspace.knowsFunction (w : Workspace) (rules : Settings) (d : Document) (name : Text) :
    Bool :=
  isKeyword name || isScope name || isBuiltin name || rules.isExtraBuiltin name
    || w.documents.any (·.2.hasThread name) || d.hasLabel name

/-- The calls that are reported, listed by the sites. -/
theorem View.unknownFunctions_eq {v : View} {path : Path}
    (hread : v.document = Document.read path v.text) :
    v.unknownFunctions = ((Document.sites v.text).filter fun s =>
        s.isCall && !v.isKnownFunction s.lexeme.text).map
      fun s => ⟨.unknownFunction s.lexeme.text, s.lexeme.span⟩ := by
  rw [unknownFunctions, hread, Calls.ofScript_eq, List.filter_map, List.filter_filter, List.map_map]
  refine congrArg (List.map _) (List.filter_congr ?_)
  intro s _
  exact Bool.and_comm _ _

namespace Workspace

/-- A name is known by the index exactly when it is by the tracked scripts. -/
theorem Consistent.isKnownFunction_eq {disk now : Disk} {w : Workspace} (hw : Consistent disk w)
    {rules : Settings} {path : Path} {v : View} (hv : w.view? now rules path = some v) {name : Text}
    (hname : ∀ a ∈ name, isIdentifierChar a = true) :
    v.isKnownFunction name = w.knowsFunction rules v.document name := by
  obtain ⟨-, rfl, hindex⟩ := view?_spec hv
  have hthread : v.index.isThread name = w.documents.any (·.2.hasThread name) := by
    rw [hindex, hw.symbolIndex_eq, freshIndex, Bool.eq_iff_iff, List.any_eq_true,
      SymbolIndex.isThread_iff w.root w.documents (isPlainName_of_identifier hname)]
  rw [View.isKnownFunction, knowsFunction, hthread]

/-- **UNKNOWN FUNCTIONS**: what is reported for a tracked script is, in order and once each, the
    bare words that stand right before an opening parenthesis, that nothing before them makes a
    thread, label or entity, and that the script does not know. -/
theorem unknownFunctions_eq_unknown_calls (settings : Settings) (root : Path) (disk : Disk)
    (ops : List Operation) (now : Disk) (rules : Settings) {path : Path} {t : Text}
    (ht : ((empty settings root).run disk ops).text? path = some t) :
    ∃ v, ((empty settings root).run disk ops).view? now rules path = some v
      ∧ ((empty settings root).run disk ops).document? path = some v.document
      ∧ v.unknownFunctions = ((Document.sites t).filter fun s => s.isCall
          && !((empty settings root).run disk ops).knowsFunction rules v.document s.lexeme.text).map
        (fun s => ⟨.unknownFunction s.lexeme.text, s.lexeme.span⟩)
      ∧ v.unknownFunctions.Pairwise fun f g => f.span.start.order g.span.start = .lt := by
  have hw := (Consistent.empty disk settings root).run ops
  generalize (empty settings root).run disk ops = w at hw ht ⊢
  obtain ⟨file, hd⟩ := hw.exists_document?_of_text? ht
  obtain ⟨v, hv⟩ := exists_view? hd now rules
  obtain ⟨hdocument, -, -⟩ := view?_spec hv
  have htext : v.text = t := by
    obtain ⟨d, -, rfl⟩ := Option.map_eq_some_iff.mp hv
    exact congrArg (Option.getD · []) ht
  have hread : v.document = Document.read file v.text := by
    rw [htext]
    exact Option.some.inj (hdocument.symm.trans hd)
  have hequation := View.unknownFunctions_eq hread
  rw [htext] at hequation
  refine ⟨v, hv, hdocument, hequation.trans (congrArg (List.map _) (List.filter_congr ?_)), ?_⟩
  · intro s hs
    cases hcall : s.isCall with
    | false => rfl
    | true =>
        obtain ⟨i, l, hl, rfl⟩ := mem_sites.mp hs
        rw [Site.isCall, Bool.and_eq_true, Bool.and_eq_true, beq_iff_eq] at hcall
        have hknown := hw.isKnownFunction_eq hv (isIdentifierChar_of_mem_wordText hl hcall.1.1)
        exact congrArg (fun known => true && !known) hknown
  · rw [hequation, List.pairwise_map]
    exact ((sites_ordered t).filter _).imp Lexeme.StartsBefore.order_eq

/-- Here `known` is a thread of the other script; the one `far` stands in a comment, and the other
    is started as a thread. -/
theorem unknownFunctions_of_nested_calls :
    let a : Path := ⟨"/w/a.scr".toList⟩
    let t : Text := "main:\nfoo (known(1)) /* far(2) */\nthread far(3)\nend".toList
    let w := (empty .default ⟨"/w".toList⟩).run .empty
      [.upsert a t, .upsert ⟨"/w/b.scr".toList⟩ "known:\nend".toList]
    w.text? a = some t ∧ ∃ v, w.view? .empty .default a = some v
      ∧ v.unknownFunctions = [⟨.unknownFunction "foo".toList, .onLine 1 0 3⟩] := by
  intro a t w
  obtain ⟨ht, hd, hcalls⟩ : w.text? a = some t ∧ w.document? a = some (Document.read a t)
      ∧ (((Document.sites t).filter fun s =>
          s.isCall && !w.knowsFunction .default (Document.read a t) s.lexeme.text).map
        fun s => (⟨.unknownFunction s.lexeme.text, s.lexeme.span⟩ : Finding))
        = [⟨.unknownFunction "foo".toList, .onLine 1 0 3⟩] := by decide +kernel
  obtain ⟨v, hv, hdocument, hequation, -⟩ := unknownFunctions_eq_unknown_calls .default
    ⟨"/w".toList⟩ .empty [.upsert a t, .upsert ⟨"/w/b.scr".toList⟩ "known:\nend".toList] .empty
    .default ht
  rw [Option.some.inj (hdocument.symm.trans hd)] at hequation
  exact ⟨ht, v, hv, hequation.trans hcalls⟩

end Workspace

end ScriptAtlas
