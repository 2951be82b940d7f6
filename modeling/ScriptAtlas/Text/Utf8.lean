import ScriptAtlas.Text.Basic

/-! # UTF-8 — octets read as text, whatever they hold

    Octets are read one at a time.  A beginning of a character that cannot be
    completed is written as one replacement character, and the octet that broke
    it starts anew; a byte order mark is kept.  `decode?` takes only octets that
    are the octets of a text. -/

namespace ScriptAtlas.Utf8

/-- A character that has begun: how many octets are owed, the bits so far, and the least and the
    greatest octet that may come next. -/
structure Pending where
  owed : Nat
  bits : Nat
  low : Nat
  high : Nat
deriving DecidableEq, Repr

/-- The character written for octets that are no character. -/
def replacement : Char := Char.ofNat 0xFFFD

/-- A first octet: the character it is, or the beginning it makes. -/
def first (b : Nat) : Text × Option Pending :=
  if b < 0x80 then ([Char.ofNat b], none)
  else if 0xC2 ≤ b && b ≤ 0xDF then ([], some ⟨1, b - 0xC0, 0x80, 0xBF⟩)
  else if b == 0xE0 then ([], some ⟨2, 0, 0xA0, 0xBF⟩)
  else if b == 0xED then ([], some ⟨2, 0xD, 0x80, 0x9F⟩)
  else if 0xE1 ≤ b && b ≤ 0xEF then ([], some ⟨2, b - 0xE0, 0x80, 0xBF⟩)
  else if b == 0xF0 then ([], some ⟨3, 0, 0x90, 0xBF⟩)
  else if 0xF1 ≤ b && b ≤ 0xF3 then ([], some ⟨3, b - 0xF0, 0x80, 0xBF⟩)
  else if b == 0xF4 then ([], some ⟨3, 4, 0x80, 0x8F⟩)
  else ([replacement], none)

/-- The next octet of a character that has begun, or the first of another. -/
def next (p : Pending) (b : Nat) : Text × Option Pending :=
  if p.low ≤ b && b ≤ p.high then
    let bits := p.bits * 0x40 + (b - 0x80)
    if p.owed ≤ 1 then ([Char.ofNat bits], none)
    else ([], some ⟨p.owed - 1, bits, 0x80, 0xBF⟩)
  else
    let (text, pending) := first b
    (replacement :: text, pending)

/-- The text of octets after a beginning. -/
def decodeFrom (pending : Option Pending) : List UInt8 → Text
  | [] => if pending.isSome then [replacement] else []
  | b :: bs =>
    let (text, pending') :=
      match pending with
      | none => first b.toNat
      | some p => next p b.toNat
    text ++ decodeFrom pending' bs

/-- The text of a list of octets. -/
def decode (octets : List UInt8) : Text := decodeFrom none octets

/-- The octets of a text. -/
def encode (t : Text) : List UInt8 := t.flatMap String.utf8EncodeChar

/-- The text that octets are the octets of, if there is one. -/
def decode? (octets : List UInt8) : Option Text :=
  let t := decode octets
  if encode t == octets then some t else none

end ScriptAtlas.Utf8
