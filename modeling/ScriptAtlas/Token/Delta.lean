import ScriptAtlas.Token.Basic

/-! # Deltas — tokens as an editor receives them

    Each token is sent as its distance from the one before: the number of lines
    between them and, within a line, the number of columns.  Tokens without
    characters are left out.  `decode` adds the distances up again. -/

namespace ScriptAtlas

/-- A token by its distance from the one before. -/
structure Delta where
  line : Nat
  start : Nat
  length : Nat
  type : Nat
  modifiers : Nat
deriving DecidableEq, Repr

namespace Delta

/-- The distances of the tokens, from the place of the token before them. -/
def encodeFrom (line column : Nat) : List Token → List Delta
  | [] => []
  | t :: ts =>
    if t.length == 0 then encodeFrom line column ts
    else
      ⟨t.line - line, if t.line - line == 0 then t.column - column else t.column, t.length,
        t.type.index, t.modifiers.bits⟩ :: encodeFrom t.line t.column ts

/-- The distances of the tokens of a script. -/
def encode (tokens : List Token) : List Delta := encodeFrom 0 0 tokens

/-- The places and meanings that distances stand for: line, column, length, type and modifiers. -/
def decodeFrom (line column : Nat) : List Delta → List (Nat × Nat × Nat × Nat × Nat)
  | [] => []
  | d :: ds =>
    let column' := if d.line == 0 then column + d.start else d.start
    (line + d.line, column', d.length, d.type, d.modifiers)
      :: decodeFrom (line + d.line) column' ds

/-- The places and meanings of the tokens of a script. -/
def decode (deltas : List Delta) : List (Nat × Nat × Nat × Nat × Nat) := decodeFrom 0 0 deltas

end Delta

end ScriptAtlas
