import ScriptAtlas.Workspace.Navigation
import ScriptAtlas.Proofs.Document.Ownership
import ScriptAtlas.Proofs.Sorting

/-! # The cursor — which name lies under it

    Ranges answer a cursor at either end, so a cursor between two lexemes that
    touch lies in both.  A name is still the one that answers when the lexeme
    right before it names nothing.  The route:

    * two lexemes under one cursor follow each other at once
      (`number_succ_of_covers`);
    * so of the lexemes under the cursor only one can come before the name, and it
      is silent (`IsNameAt.isSilent_of_lt`);
    * the search for a script and the search for a symbol then pass over it
      (`IsNameAt.definitionAt_eq`). -/

namespace ScriptAtlas

/-- Whether lexemes of this kind name neither a symbol nor a script. -/
def Kind.isSilent : Kind → Bool
  | .keyword | .comment | .operator => true
  | _ => false

theorem Lexeme.covers_iff {l : Lexeme} {cursor : Position} : l.span.covers cursor = true
    ↔ cursor.line = l.line ∧ l.column ≤ cursor.column ∧ cursor.column ≤ l.endColumn := by
  rw [Span.covers, Bool.and_eq_true, Position.le_iff, Position.le_iff]
  simp only [Lexeme.span, Span.onLine]
  omega

theorem namesSymbol_of_isSilent {k : Kind} (h : k.isSilent = true) :
    Document.namesSymbol k = false := by
  cases k with
  | keyword | comment | operator => rfl
  | _ => exact nomatch h

theorem includedPath?_of_isSilent {d : Document} {l : Lexeme} (h : l.kind.isSilent = true) :
    Workspace.includedPath? d l = none := by
  rw [Workspace.includedPath?]
  cases hkind : l.kind with
  | pathRef | string => exact nomatch hkind ▸ h
  | _ => rfl

theorem includedPath?_of_names {d : Document} {l : Lexeme}
    (h : Document.namesSymbol l.kind = true) : Workspace.includedPath? d l = none := by
  rw [Workspace.includedPath?]
  cases hkind : l.kind with
  | pathRef | string => exact nomatch hkind ▸ h
  | _ => rfl

section Text

variable {t : Text} {i j : Nat} {l m : Lexeme} {cursor : Position}

/-- Of two lexemes under one cursor, the second follows the first at once. -/
theorem number_succ_of_covers (hi : (scan t).lexemes[i]? = some l)
    (hj : (scan t).lexemes[j]? = some m) (hij : i < j) (hl : l.span.covers cursor = true)
    (hm : m.span.covers cursor = true) : i + 1 = j := by
  by_contra hne
  obtain ⟨between, hn⟩ : ∃ between, (scan t).lexemes[i + 1]? = some between := by
    have hlength := (List.getElem?_eq_some_iff.mp hj).1
    exact ⟨_, List.getElem?_eq_getElem (by omega)⟩
  -- the one between would have no room for a character
  have hbefore := standsBefore_of_lt hi hn (Nat.lt_succ_self i)
  have hafter := standsBefore_of_lt hn hj (by omega)
  have hcharacter := (scan_lexemes_placed (List.mem_of_getElem? hn)).1
  rw [Lexeme.covers_iff] at hl hm
  simp only [Lexeme.StandsBefore, Lexeme.endColumn] at hbefore hafter hl hm
  omega

/-- A name under the cursor, after a lexeme that names nothing. -/
structure IsNameAt (t : Text) (i : Nat) (l : Lexeme) (cursor : Position) : Prop where
  lexeme : (scan t).lexemes[i]? = some l
  names : Document.namesSymbol l.kind = true
  covers : l.span.covers cursor = true
  silent : ∀ j m, j + 1 = i → (scan t).lexemes[j]? = some m → m.kind.isSilent = true

theorem IsNameAt.isSilent_of_lt (h : IsNameAt t i l cursor) (hj : (scan t).lexemes[j]? = some m)
    (hji : j < i) (hm : m.span.covers cursor = true) : m.kind.isSilent = true :=
  h.silent j m (number_succ_of_covers hj h.lexeme hji hm h.covers) hj

/-- The lexeme under the cursor names no script. -/
theorem IsNameAt.lexemeAt_spec (h : IsNameAt t i l cursor) (path : Path) :
    ∃ m, (Document.read path t).lexemeAt cursor = some m
      ∧ Workspace.includedPath? (Document.read path t) m = none := by
  have hsignificant : l.isSignificant = true := by
    have hnames := h.names
    rw [Lexeme.isSignificant, Kind.isSignificant]
    cases hkind : l.kind with
    | comment =>
        rw [hkind] at hnames
        exact absurd hnames Bool.false_ne_true
    | _ => rfl
  have hanswers : (l.isSignificant && l.span.covers cursor) = true := by
    rw [hsignificant, h.covers]
    rfl
  cases hfind : (Document.read path t).lexemeAt cursor with
  | none =>
      have hnot := List.find?_eq_none.mp hfind l (List.mem_of_getElem? h.lexeme)
      exact absurd hanswers hnot
  | some m =>
      refine ⟨m, rfl, ?_⟩
      obtain ⟨hm, j, hj, hget, hbefore⟩ := List.find?_eq_some_iff_getElem.mp hfind
      have hlexeme : (scan t).lexemes[j]? = some m := List.getElem?_eq_some_iff.mpr ⟨hj, hget⟩
      have hji : j ≤ i := by
        by_contra hij
        obtain ⟨hi, rfl⟩ := List.getElem?_eq_some_iff.mp h.lexeme
        have hnot := hbefore i (Nat.lt_of_not_le hij)
        rw [Bool.not_eq_true'] at hnot
        exact Bool.noConfusion (hanswers.symm.trans hnot)
      -- an earlier lexeme that the cursor touches ends where this one starts, and names nothing
      rcases Nat.eq_or_lt_of_le hji with rfl | hji
      · obtain rfl : l = m := Option.some.inj (h.lexeme.symm.trans hlexeme)
        exact includedPath?_of_names h.names
      · have hcovers := (Bool.and_eq_true_iff.mp hm).2
        exact includedPath?_of_isSilent (h.isSilent_of_lt hlexeme hji hcovers)

/-- The symbol under the cursor is that of the first lexeme there that names one. -/
theorem symbolAt_eq_symbolText (path : Path) (hl : (scan t).lexemes[i]? = some l)
    (hnames : Document.namesSymbol l.kind = true) (hcovers : l.span.covers cursor = true)
    (hbefore : ∀ j m, j < i → (scan t).lexemes[j]? = some m → m.span.covers cursor = true →
      Document.namesSymbol m.kind = false) :
    (Document.read path t).symbolAt cursor = (Document.read path t).symbolText i l := by
  have hfind : ((scan t).lexemes.zipIdx.find? fun e =>
      e.1.span.covers cursor && Document.namesSymbol e.1.kind) = some (l, i) := by
    obtain ⟨hi, hget⟩ := List.getElem?_eq_some_iff.mp hl
    refine List.find?_eq_some_iff_getElem.mpr ⟨by rw [hcovers, hnames]; rfl, i, ?_, ?_, ?_⟩
    · rw [List.length_zipIdx]
      exact hi
    · rw [List.getElem_zipIdx, hget, Nat.zero_add]
    · intro j hji
      rw [List.getElem_zipIdx]
      by_cases hm : (scan t).lexemes[j].span.covers cursor = true
      · rw [hbefore j _ hji (List.getElem?_eq_getElem _) hm, Bool.and_false]
        rfl
      · rw [Bool.not_eq_true] at hm
        rw [hm]
        rfl
  rw [Document.symbolAt]
  split
  · rename_i l' i' hfound
    obtain ⟨rfl, rfl⟩ := Prod.mk.inj (Option.some.inj (hfind.symm.trans hfound))
    rfl
  · rename_i hnone
    exact absurd (hfind.symm.trans hnone) (Option.some_ne_none _)

/-- The symbol under the cursor is that of the name. -/
theorem IsNameAt.symbolAt_eq (h : IsNameAt t i l cursor) (path : Path) :
    (Document.read path t).symbolAt cursor = (Document.read path t).symbolText i l := by
  refine symbolAt_eq_symbolText path h.lexeme h.names h.covers ?_
  intro j m hji hm hcovers
  exact namesSymbol_of_isSilent (h.isSilent_of_lt hm hji hcovers)

/-- The definition under the cursor is that of the name, as seen from its line. -/
theorem IsNameAt.definitionAt_eq (h : IsNameAt t i l cursor) {w : Workspace} {disk : Disk}
    {path file : Path} (hd : w.document? path = some (Document.read file t)) :
    w.definitionAt disk path cursor = ((Document.read file t).symbolText i l).bind
      (w.symbolDefinition? disk path (Document.read file t) l.line) := by
  obtain ⟨m, hlexeme, hincluded⟩ := h.lexemeAt_spec file
  have hline : cursor.line = l.line := (Lexeme.covers_iff.mp h.covers).1
  rw [Workspace.definitionAt, hd]
  show ((Document.read file t).lexemeAt cursor).bind _ = _
  rw [hlexeme, Option.bind_some, hincluded]
  show ((Document.read file t).symbolAt cursor).bind _ = _
  rw [h.symbolAt_eq, hline]

/-! ## Jumps and cross references under the cursor -/

/-- The word of a jump comes after its keyword or a comment. -/
theorem isNameAt_jump {keywords : List Text} {jump : Jump}
    (h : jump ∈ (Document.sites t).filterMap (Site.jump? keywords))
    (hcovers : jump.span.covers cursor = true) :
    ∃ j target, IsNameAt t j target cursor ∧ target.kind = .word
      ∧ jump = ⟨target.text, (Progress.upTo (scan t).lexemes j).owner target, target.span⟩ := by
  obtain ⟨i, l, hl, hjump⟩ := mem_filterMap_sites.mp h
  obtain ⟨hkeyword, j, target, hij, htarget, hword, hcomments, rfl⟩ := jump?_ofNumber hl hjump
  refine ⟨j, target, ⟨htarget, by rw [hword]; rfl, hcovers, ?_⟩, hword, rfl⟩
  intro n m hn hm
  rcases Nat.eq_or_lt_of_le (Nat.le_of_lt_succ (hn ▸ hij)) with rfl | hin
  · obtain rfl : l = m := Option.some.inj (hl.symm.trans hm)
    rw [hkeyword]
    rfl
  · rw [hcomments n m hin (hn ▸ Nat.lt_succ_self n) hm]
    rfl

/-- The name of a cross reference comes after the colons, and its path before them. -/
theorem isNameAt_crossReference {file : Path} {r : CrossReference}
    (h : r ∈ (Document.read file t).crossReferences) (hcovers : r.span.covers cursor = true) :
    ∃ n path name, IsNameAt t (n + 2) name cursor ∧ (scan t).lexemes[n]? = some path
      ∧ name.kind = .crossRefName ∧ r.rawPath = path.text ∧ r.name = name.text := by
  obtain ⟨i, name, hname, hr⟩ := mem_filterMap_sites.mp h
  obtain ⟨hkind, n, path, colons, rfl, hpath, -, hcolons, hoperator, rfl⟩ :=
    crossReference?_ofNumber hname hr
  refine ⟨n, path, name, ⟨hname, by rw [hkind]; rfl, hcovers, ?_⟩, hpath, hkind, rfl, rfl⟩
  intro j m hj hm
  obtain rfl : j = n + 1 := Nat.succ.inj hj
  obtain rfl : colons = m := Option.some.inj (hcolons.symm.trans hm)
  rw [hoperator]
  rfl

end Text

end ScriptAtlas
