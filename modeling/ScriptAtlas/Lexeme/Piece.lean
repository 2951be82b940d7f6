import ScriptAtlas.Lexeme.Basic

/-! # Pieces — a row cut into lexemes and gaps

    A row is read into pieces whose texts, put together, are the row again.  A
    piece is a lexeme without its place or a gap of blanks; the places follow
    from the lengths (`layOut`). -/

namespace ScriptAtlas

/-- A piece of a row. -/
inductive Piece where
  /-- Blanks between lexemes. -/
  | gap (text : Text)
  | lexeme (kind : Kind) (text : Text)
deriving DecidableEq, Repr

namespace Piece

/-- The characters of a piece. -/
def text : Piece → Text
  | gap t => t
  | lexeme _ t => t

/-- Whether the piece is a lexeme other than a comment. -/
def isSignificant : Piece → Bool
  | gap _ => false
  | lexeme k _ => k.isSignificant

/-- Whether the piece is a lexeme of any kind. -/
def isLexeme : Piece → Bool
  | gap _ => false
  | lexeme _ _ => true

/-- Whether the piece is that operator. -/
def isOperator (op : String) : Piece → Bool
  | lexeme .operator t => t == op.toList
  | _ => false

/-- Whether the piece is that keyword, in any letter case. -/
def isKeyword (word : String) : Piece → Bool
  | lexeme .keyword t => Text.sameName t word.toList
  | lexeme .threadEnd t => Text.sameName t word.toList
  | _ => false

/-- The gap with that text, or nothing if it is empty. -/
def gaps (t : Text) : List Piece := if t.isEmpty then [] else [gap t]

/-- The number of characters of a list of pieces. -/
def width : List Piece → Nat
  | [] => 0
  | p :: ps => p.text.length + width ps

/-- The lexemes of a row, from its pieces and the column of the first. -/
def layOut (line : Nat) : (column : Nat) → List Piece → List Lexeme
  | _, [] => []
  | column, gap t :: ps => layOut line (column + t.length) ps
  | column, lexeme k t :: ps => ⟨line, column, k, t⟩ :: layOut line (column + t.length) ps

end Piece

end ScriptAtlas
