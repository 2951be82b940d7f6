import ScriptAtlas.Proofs.Scan.Kinds
import ScriptAtlas.Proofs.Scan.Reading
import ScriptAtlas.Proofs.Scan.Statements

/-! # Assignments — whether a property is written to

    Whether a property is assigned to is decided when its name is read, by looking
    at the characters behind it: subscripts are skipped by counting brackets, also
    those in strings and comments.  The lexemes behind the name are read later.
    The route:

    * the characters are tested for an operator behind groups of brackets
      (`assignsAfter_eq_passes`);
    * a cut behind a lexeme is an operator exactly where the characters start
      with one (`Spelling.first`), and has no brackets in it unless it is a
      bracket, a string or a comment (`Spelling.quiet`);
    * hence the test of the characters is a test of the lexemes, if the brackets
      in strings and comments are balanced (`assignsAfter_eq_of_reads`). -/

namespace ScriptAtlas

open Vocabulary Text

/-- The operators that assign to what stands before them. -/
def assignmentOperators : List Text :=
  ["=", "+=", "-=", "*=", "/=", "++", "--"].map String.toList

/-- Whether a text starts with an operator that assigns. -/
def Shape.startsAssignment (t : Text) : Bool := (operator? t).any assignmentOperators.contains

/-- Whether lexemes start with an operator that assigns. -/
def startsAssignment (ls : List Lexeme) : Bool :=
  ls.head?.any fun l => l.kind == .operator && assignmentOperators.contains l.text

/-- Whether a text goes on with an assignment, behind subscripts and blanks. -/
def AssignedText (t : Text) : Prop :=
  PastGroups (· == '[') (· == ']') isBlank (fun t => Shape.startsAssignment t = true) t

/-- Whether lexemes go on with an assignment, behind subscripts. -/
def Assigned (ls : List Lexeme) : Prop :=
  PastGroups (isSign "[") (isSign "]") (fun _ => false) (fun ls => startsAssignment ls = true) ls

/-- The lexemes of the subscripts at the start; `depth` counts those that are open. -/
def subscripts (depth : Nat) (ls : List Lexeme) : List Lexeme :=
  groups (isSign "[") (isSign "]") depth ls

/-- Whether the text of a lexeme may hold any characters. -/
def Kind.isQuoted : Kind → Bool
  | .string => true
  | .comment => true
  | _ => false

/-- Whether the brackets in each string and comment are balanced. -/
def QuotesBalanced (ls : List Lexeme) : Prop :=
  ∀ l ∈ ls, l.kind.isQuoted = true → Balanced (· == '[') (· == ']') l.text

/-- Whether lexemes go on with an assignment, by counting brackets. -/
def assigns (depth : Nat) (ls : List Lexeme) : Bool :=
  passes (isSign "[") (isSign "]") (fun _ => false) startsAssignment depth ls

/-! ## Operators -/

namespace Shape

variable {a : Char} {rest : Text}

theorem contains_assignmentOperators (op : Text) :
    assignmentOperators.contains op = (op == ['='] || writeOperators.contains op) := by
  have hcons : assignmentOperators = ['='] :: writeOperators := by decide
  rw [hcons, List.contains_cons]

/-- An assignment is an equals sign that is not doubled, or an operator that writes. -/
theorem startsAssignment_eq (a : Char) (rest : Text) : startsAssignment (a :: rest)
    = if a == '=' then rest.head? != some '=' else writeOperators.contains (a :: rest.take 1) := by
  have hpairs :
      (writeOperators.all fun op => wideOperators.contains op && op.length == 2) = true := by
    decide
  by_cases ha : a = '='
  · subst ha
    rw [if_pos (beq_self_eq_true '=')]
    cases rest with
    | nil => decide
    | cons b rest =>
        by_cases hb : b = '='
        · rw [hb]
          rfl
        · have hwide : wideOperators.contains ['=', b] = false := by simp [wideOperators, hb]
          have hop : operator? ('=' :: b :: rest) = some ['='] := by
            rw [operator?, take_two_cons, List.take_succ_cons, List.take_zero,
              if_neg (Bool.eq_false_iff.mp hwide)]
            rfl
          rw [startsAssignment, hop, List.head?_cons]
          exact (bne_iff_ne.mpr fun heq => hb (Option.some.inj heq)).symm
  · rw [if_neg (by simpa using ha), startsAssignment, operator?, take_two_cons]
    have hequals : ∀ u, (a :: u == ['=']) = false := by
      intro u
      rw [beq_eq_false_iff_ne]
      exact fun heq => ha (List.cons.inj heq).1
    by_cases hwide : wideOperators.contains (a :: rest.take 1) = true
    · rw [if_pos hwide, Option.any_some, contains_assignmentOperators, hequals, Bool.false_or]
    · -- an operator that writes has two characters
      have hwrite : ∀ op : Text, wideOperators.contains op = false ∨ op.length ≠ 2 →
          writeOperators.contains op = false := by
        intro op hop
        rw [Bool.eq_false_iff]
        intro hmem
        have hpair := List.all_eq_true.mp hpairs op (List.contains_iff_mem.mp hmem)
        rw [Bool.and_eq_true, beq_iff_eq] at hpair
        rcases hop with hop | hop
        · exact Bool.false_ne_true (hop.symm.trans hpair.1)
        · exact hop hpair.2
      rw [if_neg hwide, hwrite _ (Or.inl (Bool.eq_false_iff.mpr hwide))]
      split
      · rw [Option.any_some, List.take_succ_cons, List.take_zero, contains_assignmentOperators,
          hequals, hwrite [a] (Or.inr (by simp)), Bool.or_false]
      · rfl

theorem assignsAfter_eq_passes (depth : Nat) (t : Text) : assignsAfter depth t
    = passes (· == '[') (· == ']') isBlank startsAssignment depth t := by
  fun_induction assignsAfter depth t with
  | case1 depth => cases depth <;> rfl
  | case2 c rest hblank ih => rw [passes_skip hblank, ih]
  | case3 c rest hblank hopen ih =>
      rw [passes_open_zero (Bool.eq_false_iff.mpr hblank) hopen, ih]
  | case4 c rest hblank hopen heq =>
      rw [passes_test (Bool.eq_false_iff.mpr hblank) (Bool.eq_false_iff.mpr hopen),
        startsAssignment_eq, if_pos heq]
  | case5 c rest hblank hopen heq =>
      rw [passes_test (Bool.eq_false_iff.mpr hblank) (Bool.eq_false_iff.mpr hopen),
        startsAssignment_eq, if_neg heq]
  | case6 depth c rest hopen ih => rw [passes, if_pos hopen, ih]
  | case7 depth c rest hopen hclose ih => rw [passes, if_neg hopen, if_pos hclose, ih]
  | case8 depth c rest hopen hclose ih => rw [passes, if_neg hopen, if_neg hclose, ih]

end Shape

namespace Scan

variable {c : Context} {v : Text} {ps : List Piece} {a : Char} {rest : Text}

/-! ## Brackets in pieces -/

/-- Whether a character is a bracket. -/
def isBracket (a : Char) : Bool := a == '[' || a == ']'

/-- A piece that has no brackets in it, or may have any. -/
def Quiet : Piece → Prop
  | .gap t => ∀ a ∈ t, isBracket a = false
  | .lexeme k t => k.isQuoted = true ∨ ∀ a ∈ t, isBracket a = false

/-- A class of characters without the brackets. -/
theorem isBracket_of {p : Char → Bool} {a : Char} (ha : p a = true) (hopen : p '[' = false)
    (hclose : p ']' = false) : isBracket a = false := by
  rw [isBracket, Bool.or_eq_false_iff, beq_eq_false_iff_ne, beq_eq_false_iff_ne]
  constructor
  · rintro rfl
    exact Bool.false_ne_true (hopen.symm.trans ha)
  · rintro rfl
    exact Bool.false_ne_true (hclose.symm.trans ha)

theorem isBracket_of_isIdentifierChar {a : Char} (ha : isIdentifierChar a = true) :
    isBracket a = false :=
  isBracket_of ha (by decide) (by decide)

/-- Brackets are operators by themselves, and no other operator has one. -/
theorem bracket_of_operator? {t u : Text} (hop : Shape.operator? t = some u) :
    u = ['['] ∨ u = [']'] ∨ ∀ a ∈ u, isBracket a = false := by
  have hwide : (Shape.wideOperators.all fun op => op.all fun a => !isBracket a) = true := by
    decide
  rcases Shape.operator?_cases hop with hmem | ⟨a, -, rfl⟩
  · refine Or.inr (Or.inr fun a ha => ?_)
    exact (Bool.not_eq_true' _).mp (List.all_eq_true.mp (List.all_eq_true.mp hwide u hmem) a ha)
  · by_cases ha : isBracket a = true
    · rw [isBracket, Bool.or_eq_true, beq_iff_eq, beq_iff_eq] at ha
      rcases ha with rfl | rfl
      · exact Or.inl rfl
      · exact Or.inr (Or.inl rfl)
    · exact Or.inr (Or.inr (List.forall_mem_singleton.mpr (Bool.eq_false_iff.mpr ha)))

/-- Behind a lexeme, a cut is a bracket or has none, strings and comments apart. -/
theorem Spelling.quiet (h : Spelling c v ps) (hmidway : c.IsMidway (a :: rest)) :
    ps = [.lexeme .operator ['[']] ∨ ps = [.lexeme .operator [']']] ∨ ∀ p ∈ ps, Quiet p := by
  have hname : ∀ {u : Text}, (∀ a ∈ u, isIdentifierChar a = true) → ∀ a ∈ u, isBracket a = false :=
    fun hchars a ha => isBracket_of_isIdentifierChar (hchars a ha)
  have hpath : ∀ {u : Text}, IsPath u → ∀ a ∈ u, isBracket a = false :=
    fun hpath a ha => isBracket_of (hpath.chars a ha) (by decide) (by decide)
  -- brackets are no part of names, numbers and paths; they are operators of their own
  cases h with
  | comment hblank _ _ =>
      refine Or.inr (Or.inr (List.forall_mem_cons.mpr ⟨Or.inl rfl, fun p hp => ?_⟩))
      rw [Piece.mem_gaps hp]
      exact fun a ha => isBracket_of (hblank a ha) (by decide) (by decide)
  | string _ => exact Or.inr (Or.inr (List.forall_mem_singleton.mpr (Or.inl rfl)))
  | number hdigits _ =>
      refine Or.inr (Or.inr (List.forall_mem_singleton.mpr (Or.inr fun a ha => ?_)))
      rcases hdigits a ha with hdigit | rfl
      · exact isBracket_of hdigit (by decide) (by decide)
      · decide
  | heading hstart _ _ _ =>
      exact absurd (hmidway.atStatementStart.symm.trans hstart) Bool.false_ne_true
  | name _ h _ => exact Or.inr (Or.inr (List.forall_mem_singleton.mpr (Or.inr (hname h.chars))))
  | directive hchars _ =>
      exact Or.inr (Or.inr (List.forall_mem_singleton.mpr
        (Or.inr (List.forall_mem_cons.mpr ⟨by decide, hname hchars⟩))))
  | dotted _ h _ =>
      exact Or.inr (Or.inr (List.forall_mem_cons.mpr
        ⟨Or.inr (List.forall_mem_singleton.mpr (by decide)),
          List.forall_mem_singleton.mpr (Or.inr (hname h.chars))⟩))
  | path h _ => exact Or.inr (Or.inr (List.forall_mem_singleton.mpr (Or.inr (hpath h))))
  | cross h hcross =>
      refine Or.inr (Or.inr (List.forall_mem_cons.mpr ⟨Or.inr (hpath h),
        List.forall_mem_cons.mpr ⟨Or.inr (List.forall_mem_cons.mpr ⟨rfl,
          List.forall_mem_singleton.mpr rfl⟩), ?_⟩⟩))
      rcases hcross with rfl | ⟨name, rfl, h⟩
      · exact List.forall_mem_nil _
      · exact List.forall_mem_singleton.mpr (Or.inr (hname h.chars))
  | operator hop =>
      rcases bracket_of_operator? hop with rfl | rfl | hfree
      · exact Or.inl rfl
      · exact Or.inr (Or.inl rfl)
      · exact Or.inr (Or.inr (List.forall_mem_singleton.mpr (Or.inr hfree)))
  | @stray b hop _ _ =>
      refine Or.inr (Or.inr (List.forall_mem_singleton.mpr (Or.inr
        (List.forall_mem_singleton.mpr ?_))))
      rw [Bool.eq_false_iff]
      intro hb
      rw [isBracket, Bool.or_eq_true, beq_iff_eq, beq_iff_eq] at hb
      rcases hb with rfl | rfl <;>
        exact absurd (hop.symm.trans (Shape.operator?_lone rfl)) (Option.some_ne_none _).symm

/-- A piece that has no brackets in it is none. -/
theorem isSign_of_quiet (line column : Nat) {k : Kind} {t : Text} (h : Quiet (.lexeme k t)) :
    isSign "[" ⟨line, column, k, t⟩ = false ∧ isSign "]" ⟨line, column, k, t⟩ = false := by
  have hother : ∀ {op : String} {b : Char}, op.toList = [b] → isBracket b = true →
      isSign op ⟨line, column, k, t⟩ = false := by
    intro op b hop hb
    rw [Bool.eq_false_iff]
    intro hsign
    obtain ⟨rfl, rfl⟩ : k = .operator ∧ t = op.toList := isSign_iff.mp hsign
    rcases h with h | h
    · exact Bool.false_ne_true h
    · rw [hop] at h
      exact Bool.false_ne_true ((h b List.mem_cons_self).symm.trans hb)
  exact ⟨hother (b := '[') (by decide) (by decide), hother (b := ']') (by decide) (by decide)⟩

/-- Within subscripts, pieces without brackets change nothing. -/
theorem assigns_quiet {line column depth : Nat} {qs : List Piece} (hquiet : ∀ p ∈ ps, Quiet p)
    (hbalanced : QuotesBalanced (subscripts (depth + 1) (Piece.layOut line column (ps ++ qs)))) :
    Shape.assignsAfter (depth + 1) (Piece.texts ps ++ v) = Shape.assignsAfter (depth + 1) v
      ∧ assigns (depth + 1) (Piece.layOut line column (ps ++ qs))
          = assigns (depth + 1) (Piece.layOut line (column + Piece.width ps) qs)
      ∧ QuotesBalanced
          (subscripts (depth + 1) (Piece.layOut line (column + Piece.width ps) qs)) := by
  have hpass : ∀ {u w : Text}, Balanced (· == '[') (· == ']') u →
      Shape.assignsAfter (depth + 1) (u ++ w) = Shape.assignsAfter (depth + 1) w := by
    intro u w hu
    rw [Shape.assignsAfter_eq_passes, hu.passes_append, Shape.assignsAfter_eq_passes]
  have hfree : ∀ {u : Text}, (∀ a ∈ u, isBracket a = false) → Balanced (· == '[') (· == ']') u :=
    fun hu => balanced_of_forall fun a ha => Bool.or_eq_false_iff.mp (hu a ha)
  induction ps generalizing column with
  | nil => exact ⟨rfl, rfl, hbalanced⟩
  | cons p ps ih =>
      obtain ⟨hp, hps⟩ := List.forall_mem_cons.mp hquiet
      rw [Piece.texts_cons, List.append_assoc, Piece.width, ← Nat.add_assoc, List.cons_append]
      cases p with
      | gap t =>
          obtain ⟨htext, hlexemes, hrest⟩ := ih hps hbalanced
          exact ⟨(hpass (hfree hp)).trans htext, hlexemes, hrest⟩
      | lexeme k t =>
          obtain ⟨hopen, hclose⟩ := isSign_of_quiet line column hp
          rw [List.cons_append, Piece.layOut, subscripts, groups, hopen, hclose,
            if_neg Bool.false_ne_true, if_neg Bool.false_ne_true] at hbalanced
          obtain ⟨hthis, hbalanced⟩ := List.forall_mem_cons.mp hbalanced
          obtain ⟨htext, hlexemes, hrest⟩ := ih hps hbalanced
          refine ⟨?_, ?_, hrest⟩
          · rw [← htext]
            -- a quoted piece may hold brackets, which balance by assumption; any other holds none
            rcases hp with hp | hp
            · exact hpass (hthis hp)
            · exact hpass (hfree hp)
          · rw [Piece.layOut, assigns, passes, hopen, hclose, if_neg Bool.false_ne_true,
              if_neg Bool.false_ne_true]
            exact hlexemes

/-- Outside of subscripts the first piece decides, unless it opens one. -/
theorem assignsAfter_of_heads {k : Kind} {u : Text} (hheads : Heads k u (a :: rest))
    (ha : isBlank a = false) (hopen : Piece.lexeme k u ≠ .lexeme .operator ['[']) :
    Shape.assignsAfter 0 (a :: rest) = (k == .operator && assignmentOperators.contains u) := by
  have hsign : isSign "[" ⟨0, 0, k, u⟩ = (a == '[') := hheads.isSign_eq rfl rfl 0 0
  have hne : (a == '[') = false := by
    rw [← hsign, Bool.eq_false_iff, ne_eq, isSign_iff]
    rintro ⟨rfl, rfl⟩
    exact hopen rfl
  rw [Shape.assignsAfter_eq_passes, passes_test ha hne, Shape.startsAssignment]
  rcases hheads with ⟨rfl, hu⟩ | ⟨hk, hother⟩
  · rw [hu]
    rfl
  · rw [beq_false_of_ne hk, Bool.false_and]
    cases hop : Shape.operator? (a :: rest) with
    | none => rfl
    | some op =>
        have hplain := hother op hop
        simp only [List.mem_cons, List.not_mem_nil, or_false] at hplain
        rcases hplain with rfl | rfl | rfl <;> decide

/-- One cut behind a lexeme: if looking at the characters is looking at the lexemes from its end on,
    it is so from its start on. -/
theorem assignsAfter_eq_of_cut {qs : List Piece} {line column depth : Nat} (h : Spelling c v ps)
    (hmidway : c.IsMidway (a :: rest)) (ha : isBlank a = false)
    (hv : Piece.texts ps ++ v = a :: rest)
    (hnext : ∀ column depth, QuotesBalanced (subscripts depth (Piece.layOut line column qs)) →
      Shape.assignsAfter depth v = assigns depth (Piece.layOut line column qs))
    (hbalanced : QuotesBalanced (subscripts depth (Piece.layOut line column (ps ++ qs)))) :
    Shape.assignsAfter depth (a :: rest) = assigns depth (Piece.layOut line column (ps ++ qs)) := by
  rcases h.quiet hmidway with rfl | rfl | hquiet
  · -- a subscript opens
    rw [Piece.texts_singleton, List.singleton_append] at hv
    obtain ⟨rfl, rfl⟩ := List.cons.inj hv
    have hopen : isSign "[" ⟨line, column, .operator, ['[']⟩ = true := rfl
    cases depth with
    | zero =>
        rw [List.cons_append, Piece.layOut, subscripts, groups, if_pos hopen] at hbalanced
        rw [Shape.assignsAfter, if_neg (by decide), if_pos (by decide), List.cons_append,
          Piece.layOut, assigns, passes_open_zero rfl hopen]
        exact hnext _ 1 (List.forall_mem_cons.mp hbalanced).2
    | succ depth =>
        rw [List.cons_append, Piece.layOut, subscripts, groups, if_pos hopen] at hbalanced
        rw [Shape.assignsAfter, if_pos (by decide), List.cons_append, Piece.layOut, assigns, passes,
          if_pos hopen]
        exact hnext _ (depth + 2) (List.forall_mem_cons.mp hbalanced).2
  · -- a subscript closes, or a bracket closes nothing
    rw [Piece.texts_singleton, List.singleton_append] at hv
    obtain ⟨rfl, rfl⟩ := List.cons.inj hv
    have hopen : isSign "[" ⟨line, column, .operator, [']']⟩ = false := rfl
    cases depth with
    | zero =>
        have hheads : Heads .operator [']'] (']' :: v) :=
          Or.inl ⟨rfl, Shape.operator?_lone rfl⟩
        rw [assignsAfter_of_heads hheads ha (by decide), List.cons_append, Piece.layOut, assigns,
          passes_test rfl hopen]
        rfl
    | succ depth =>
        have hclose : isSign "]" ⟨line, column, .operator, [']']⟩ = true := rfl
        rw [List.cons_append, Piece.layOut, subscripts, groups, hopen, hclose,
          if_neg Bool.false_ne_true, if_pos rfl] at hbalanced
        rw [Shape.assignsAfter, if_neg (by decide), if_pos (by decide), List.cons_append,
          Piece.layOut, assigns, passes, hopen, hclose, if_neg Bool.false_ne_true, if_pos rfl]
        exact hnext _ depth (List.forall_mem_cons.mp hbalanced).2
  · cases depth with
    | zero =>
        obtain ⟨k, u, tail, rfl, hheads⟩ := h.first hmidway hv
        have hthis := hquiet _ List.mem_cons_self
        have hne : Piece.lexeme k u ≠ .lexeme .operator ['['] := by
          intro heq
          obtain ⟨rfl, rfl⟩ := Piece.lexeme.inj heq
          exact Bool.false_ne_true ((isSign_of_quiet line column hthis).1.symm.trans rfl)
        rw [assignsAfter_of_heads hheads ha hne, List.cons_append, Piece.layOut, assigns,
          passes_test rfl (isSign_of_quiet line column hthis).1]
        rfl
    | succ depth =>
        obtain ⟨htext, hlexemes, hrest⟩ := assigns_quiet (v := v) hquiet hbalanced
        rw [← hv, htext, hlexemes]
        exact hnext _ _ hrest

/-- Behind a lexeme, looking at the characters is looking at the lexemes, as long as the brackets in
    strings and comments are balanced. -/
theorem assignsAfter_eq_of_reads {t : Text} (h : Reads c t ps) (hmidway : c.IsMidway t)
    {line column depth : Nat}
    (hbalanced : QuotesBalanced (subscripts depth (Piece.layOut line column ps))) :
    Shape.assignsAfter depth t = assigns depth (Piece.layOut line column ps) := by
  induction h generalizing column depth with
  | nil c => cases depth <;> rfl
  | @gap c a t ps ha h ih =>
      have hnext := ih hmidway.afterGap hbalanced
      cases depth with
      | zero =>
          rw [Shape.assignsAfter, if_pos ha]
          exact hnext
      | succ depth =>
          have hbracket := isBracket_of ha (by decide) (by decide)
          rw [isBracket, Bool.or_eq_false_iff] at hbracket
          rw [Shape.assignsAfter, hbracket.1, hbracket.2, if_neg Bool.false_ne_true,
            if_neg Bool.false_ne_true]
          exact hnext
  | cut ha hv _ ih =>
      have hspelled := cut_spelled _ hv
      exact assignsAfter_eq_of_cut hspelled.pieces hmidway ha hv
        (fun _ _ => ih (hmidway.afterCut hspelled)) hbalanced

end Scan

/-! ## Properties of a text -/

theorem assignsAfter_iff (t : Text) : Shape.assignsAfter 0 t = true ↔ AssignedText t := by
  have hfirst : (assignmentOperators.all fun op => op.head?.any fun a => !isBlank a && a != '[')
      = true := by decide
  rw [Shape.assignsAfter_eq_passes]
  refine passes_zero_iff rfl ?_ ?_
  · intro a l htest
    obtain ⟨op, hop, hmem⟩ := (Option.any_eq_true _ _).mp htest
    obtain ⟨⟨tail, htail⟩, hne⟩ := Shape.operator?_prefix hop
    have hhead := List.all_eq_true.mp hfirst op (List.contains_iff_mem.mp hmem)
    cases op with
    | nil => exact absurd rfl hne
    | cons b op =>
        obtain ⟨rfl, -⟩ := List.cons.inj htail
        rw [List.head?_cons, Option.any_some, Bool.and_eq_true, Bool.not_eq_true'] at hhead
        exact ⟨hhead.1, beq_eq_false_iff_ne.mpr (bne_iff_ne.mp hhead.2)⟩
  · intro a ha
    exact (Bool.or_eq_false_iff.mp (Scan.isBracket_of ha (by decide) (by decide))).1

theorem assigns_iff (ls : List Lexeme) : assigns 0 ls = true ↔ Assigned ls := by
  refine passes_zero_iff rfl ?_ fun _ hskip => absurd hskip Bool.false_ne_true
  intro l ls htest
  refine ⟨rfl, ?_⟩
  rw [startsAssignment, List.head?_cons, Option.any_some, Bool.and_eq_true] at htest
  rw [Bool.eq_false_iff]
  intro hopen
  rw [(isSign_iff.mp hopen).2] at htest
  exact absurd htest.2 (by decide)

/-- **WRITES**: a property is a write exactly when the characters behind it go on with an
    assignment, behind blanks and groups of brackets.  If the brackets in the strings and comments
    of its subscripts are balanced, that is when the lexemes behind it on its line do. -/
theorem write_iff_assigned (t : Text) {before after : List Lexeme} {l : Lexeme} {scope : Scope}
    {write : Bool} (h : (scan t).lexemes = before ++ l :: after)
    (hkind : l.kind = .property scope write) :
    (∃ row, (rows t)[l.line]? = some row
      ∧ (write = true ↔ AssignedText (row.drop l.endColumn)))
    ∧ (QuotesBalanced (subscripts 0 (after.filter (·.line == l.line))) →
      (write = true ↔ Assigned (after.filter (·.line == l.line)))) := by
  obtain ⟨row, ps, qs, hrow, hpieces, -, hafter, -, htext⟩ := Scan.split_line_at_lexeme h
  rw [hkind] at hpieces
  obtain ⟨hwrite, c, hmidway, hreads⟩ := Scan.property_spelled _ hpieces
  refine ⟨⟨row, hrow, ?_⟩, fun hbalanced => ?_⟩
  · rw [htext, hwrite, assignsAfter_iff]
  · rw [hafter] at hbalanced ⊢
    rw [hwrite, Scan.assignsAfter_eq_of_reads hreads hmidway hbalanced, assigns_iff]

/-- Subscripts with a string and a property in them are passed. -/
theorem write_behind_subscripts :
    let t : Text := "main:\nlocal.x[\"[]\"][level.i] += 1\nend".toList
    let l : Lexeme := ⟨1, 6, .property .threadLocal true, ['x']⟩
    (scan t).lexemes = (scan t).lexemes.take 4 ++ l :: (scan t).lexemes.drop 5
      ∧ QuotesBalanced (subscripts 0 (((scan t).lexemes.drop 5).filter (·.line == 1)))
      ∧ Assigned (((scan t).lexemes.drop 5).filter (·.line == 1)) := by
  intro t l
  obtain ⟨hget, hquoted⟩ : (scan t).lexemes[4]? = some l
      ∧ (subscripts 0 (((scan t).lexemes.drop 5).filter (·.line == 1))).filter (·.kind.isQuoted)
        = [⟨1, 8, .string, "\"[]\"".toList⟩] := by decide +kernel
  have hsplit := take_append_cons_drop hget
  have hbalanced : QuotesBalanced
      (subscripts 0 (((scan t).lexemes.drop 5).filter (·.line == 1))) := by
    intro m hm hkind
    have hmem : m ∈ [_] := hquoted ▸ List.mem_filter.mpr ⟨hm, hkind⟩
    rw [List.mem_singleton.mp hmem]
    exact .other rfl rfl (.group rfl .nil rfl rfl (.other rfl rfl .nil))
  exact ⟨hsplit, hbalanced, ((write_iff_assigned t hsplit rfl).2 hbalanced).mp rfl⟩

/-- A bracket in a string closes a subscript to the flag but not to the lexemes, and so does one in
    a comment: a write is missed, and one is found that is none. -/
theorem write_confused_by_quotes :
    let missed : Text := "main:\nlocal.x[\"]\"] = 1\nend".toList
    let found : Text := "main:\nlocal.x[1 // ] = 1\nend".toList
    (scan missed).lexemes[4]? = some ⟨1, 6, .property .threadLocal false, ['x']⟩
      ∧ Assigned (((scan missed).lexemes.drop 5).filter (·.line == 1))
      ∧ (scan found).lexemes[4]? = some ⟨1, 6, .property .threadLocal true, ['x']⟩
      ∧ ¬ Assigned (((scan found).lexemes.drop 5).filter (·.line == 1)) := by
  intro missed found
  rw [← assigns_iff, ← assigns_iff]
  decide +kernel

end ScriptAtlas
