import ScriptAtlas.Lexeme.Scan

/-! # Comparison — what two scans have to agree on

    The scans of two texts are compared cut by cut: where all matchers answer
    alike, the cuts are alike (`cut_rel`).  Two parts of scanning do not go cut
    by cut, and each is opened here once:

    * a header is read in steps, each from the runs that the one before has
      left (`Header.ofText?_eq`);
    * the end of a row looks at few things in its pieces, and rows that agree in
      these leave the same state (`State.afterRow_map`). -/

namespace ScriptAtlas

open Vocabulary Text

/-! ## Headers in steps -/

namespace Header

/-- The opening parenthesis, if there is one, and the runs after it. -/
def openParen (rs : List Text) : List Piece × List Text :=
  match rs with
  | ['('] :: rs' => ([.lexeme .operator ['(']], rs')
  | _ => ([], rs)

/-- The header, given its name and pieces up to some runs, if a colon closes it there. -/
def close? (name : Text) (middle : List Piece) (rs : List Text) : Option Header :=
  if Shape.isClosingColon (skipBlanks rs).2.flatten then
    some ⟨name, middle ++ Piece.gaps (skipBlanks rs).1⟩
  else none

/-- The header with that name whose name stands before these runs, if there is one. -/
def afterName? (name : Text) (rs : List Text) : Option Header :=
  (parameters (!(openParen (skipBlanks rs).2).1.isEmpty) (openParen (skipBlanks rs).2).2).bind
    fun out => close? name
      (Piece.gaps (skipBlanks rs).1 ++ (openParen (skipBlanks rs).2).1 ++ out.1) out.2

/-- A header is read off the runs behind its name. -/
theorem ofText?_eq (t : Text) :
    ofText? t = afterName? (Shape.word t) (runs (t.drop (Shape.word t).length)) := by
  unfold ofText? afterName?
  dsimp only
  generalize skipBlanks (runs (t.drop (Shape.word t).length)) = start
  split
  · rename_i h
    have hnone : parameters (!(openParen start.2).1.isEmpty) (openParen start.2).2 = none := h
    rw [hnone, Option.bind_none]
  · rename_i parts rs h
    have hsome : parameters (!(openParen start.2).1.isEmpty) (openParen start.2).2
      = some (parts, rs) := h
    rw [hsome, Option.bind_some]
    rfl

end Header

/-! ## Cuts -/

/-- Searches that answer alike at every step find alike. -/
theorem findSome?_rel {α β γ : Type} {R : β → γ → Prop} {f : α → Option β} {g : α → Option γ}
    {l : List α} (h : ∀ a ∈ l, Option.Rel R (f a) (g a)) :
    Option.Rel R (l.findSome? f) (l.findSome? g) := by
  induction l with
  | nil => exact .none
  | cons a l ih =>
      obtain ⟨ha, hl⟩ := List.forall_mem_cons.mp h
      rw [List.findSome?_cons, List.findSome?_cons]
      generalize f a = x at ha
      generalize g a = y at ha
      cases ha with
      | none => exact ih hl
      | some hR => exact .some hR

/-- Where each matcher declines on both sides or answers alike, the cuts are alike. -/
theorem Scan.cut_rel {R : Scan.Cut → Scan.Cut → Prop} {c c' : Scan.Context} {t t' : Text}
    (hmatchers : ∀ m ∈ Scan.matchers, Option.Rel R (m c t) (m c' t'))
    (hstray : R (c.keep [.lexeme .stray (t.take 1)]) (c'.keep [.lexeme .stray (t'.take 1)])) :
    R (c.cut t) (c'.cut t') := by
  have hfind := findSome?_rel hmatchers
  unfold Scan.Context.cut
  generalize Scan.matchers.findSome? (fun m => m c t) = found at hfind
  generalize Scan.matchers.findSome? (fun m => m c' t') = found' at hfind
  cases hfind with
  | none => exact hstray
  | some hR => exact hR

/-! ## The end of a row -/

/-- Two pieces that the end of a row does not tell apart. -/
structure Piece.ActsAs (p q : Piece) : Prop where
  significant : p.isSignificant = q.isSignificant
  operator : ∀ op ∈ ["(", ")", "\x7b", "\\"], p.isOperator op = q.isOperator op
  keyword : ∀ word, p.isKeyword word = q.isKeyword word
  head : ∀ ps qs, Scan.headOf (p :: ps) = Scan.headOf (q :: qs)

/-- A piece acts as itself. -/
theorem Piece.ActsAs.refl (p : Piece) : p.ActsAs p := by
  refine ⟨rfl, fun _ _ => rfl, fun _ => rfl, ?_⟩
  intro ps qs
  cases p with
  | gap t => rfl
  | lexeme k t => cases k <;> rfl

namespace Scan

variable {f : Piece → Piece}

/-- The first word of a row is the same. -/
theorem headOf_map (hf : ∀ p : Piece, (f p).ActsAs p) (ps : List Piece) :
    headOf (ps.map f) = headOf ps := by
  cases ps with
  | nil => rfl
  | cons p ps => exact (hf p).head _ _

/-- A row ends in the parenthesis that closes its condition, or not. -/
theorem endsWithClose_map (hf : ∀ p : Piece, (f p).ActsAs p) (depth : Nat) (ps : List Piece) :
    endsWithClose depth (ps.map f) = endsWithClose depth ps := by
  induction ps generalizing depth with
  | nil => rfl
  | cons p ps ih =>
      rw [List.map_cons, endsWithClose, endsWithClose, (hf p).operator "(" (by decide),
        (hf p).operator ")" (by decide), ih, ih, ih, List.isEmpty_map]

/-- So it is the header of a statement without braces, or not. -/
theorem isBracelessHeader_map (hf : ∀ p : Piece, (f p).ActsAs p) (head : Option Text)
    (openedBrace : Bool) (ps : List Piece) :
    isBracelessHeader head openedBrace (ps.map f) = isBracelessHeader head openedBrace ps := by
  have hkeyword (p : Piece) : (f p).isKeyword "else" = p.isKeyword "else" := (hf p).keyword "else"
  unfold isBracelessHeader
  simp only [List.getLast?_map, Option.any_map, hkeyword, endsWithClose_map hf]

/-- Rows whose significant pieces are not told apart leave the same state. -/
theorem State.afterRow_map (hf : ∀ p : Piece, (f p).ActsAs p) (s : State) {ps qs : List Piece}
    (h : qs.filter Piece.isSignificant = (ps.filter Piece.isSignificant).map f) :
    s.afterRow qs = s.afterRow ps := by
  have hbrace (p : Piece) : (f p).isOperator "\x7b" = p.isOperator "\x7b" :=
    (hf p).operator "\x7b" (by decide)
  have hbackslash (p : Piece) : (f p).isOperator "\\" = p.isOperator "\\" :=
    (hf p).operator "\\" (by decide)
  unfold State.afterRow
  simp only [h, List.isEmpty_map, headOf_map hf, List.any_map, Function.comp_def, hbrace,
    List.getLast?_map, Option.any_map, hbackslash, isBracelessHeader_map hf]

end Scan

end ScriptAtlas
