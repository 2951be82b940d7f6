import ScriptAtlas.Text.Basic

/-! # Readers — from the start of a text to a value and the rest

    A reader takes what it reads off a text and leaves the rest, or fails.
    `first <|> second` starts over with the second where the first fails.
    Repetitions are bounded by the length of the text, so each reader that is
    repeated has to take a character at least. -/

namespace ScriptAtlas

/-- What reads a value off the start of a text. -/
abbrev Reader (α : Type) := StateT Text Option α

namespace Reader

/-- Reads one character of a class. -/
def satisfy (p : Char → Bool) : Reader Char
  | c :: rest => if p c then some (c, rest) else none
  | [] => none

/-- Reads one given character. -/
def char (c : Char) : Reader Unit := do let _ ← satisfy (· == c)

/-- Reads a given text. -/
def literal (t : Text) : Reader Unit := fun s =>
  if t.isPrefixOf s then some ((), s.drop t.length) else none

/-- Reads characters of a class as long as there are any. -/
def takeWhile (p : Char → Bool) : Reader Text := fun s => some (s.takeWhile p, s.dropWhile p)

/-- Reads characters of a class, one at least. -/
def takeSome (p : Char → Bool) : Reader Text := do
  let t ← takeWhile p
  if t.isEmpty then failure else return t

/-- The next character, which is left. -/
def peek : Reader (Option Char) := fun s => some (s.head?, s)

/-- Succeeds at the end of the text. -/
def atEnd : Reader Unit
  | [] => some ((), [])
  | _ => none

/-- Reads what may be missing. -/
def optionally {α : Type} (r : Reader α) : Reader (Option α) := (some <$> r) <|> pure none

/-- Reads exactly so many values. -/
def times {α : Type} (r : Reader α) : Nat → Reader (List α)
  | 0 => pure []
  | n + 1 => do return (← r) :: (← times r n)

/-- Reads at most so many values, as many as there are. -/
def upTo {α : Type} (r : Reader α) : Nat → Reader (List α)
  | 0 => pure []
  | n + 1 => fun s =>
    match r s with
    | none => some ([], s)
    | some (a, rest) => (upTo r n rest).map fun (found, rest) => (a :: found, rest)

/-- Reads values as long as there are any. -/
def many {α : Type} (r : Reader α) : Reader (List α) := fun s => upTo r s.length s

/-- Reads values with separators between them, one at least. -/
def separated {α : Type} (r : Reader α) (separator : Reader Unit) : Reader (List α) := do
  return (← r) :: (← many (separator *> r))

/-- The value of a text that a reader reads to the end. -/
def whole? {α : Type} (r : Reader α) (t : Text) : Option α :=
  match r t with
  | some (a, []) => some a
  | _ => none

end Reader

namespace Text

/-- Whether a character is a digit of a base up to sixteen. -/
def isDigitOf (base : Nat) (c : Char) : Bool :=
  (c.isDigit && c.toNat - '0'.toNat < base)
    || (10 < base && ('a' ≤ c.toLower && c.toLower.toNat - 'a'.toNat + 10 < base))

/-- The value of a digit. -/
def digitValue (c : Char) : Nat :=
  if c.isDigit then c.toNat - '0'.toNat else c.toLower.toNat - 'a'.toNat + 10

/-- The natural number that digits of a base write. -/
def numeral (base : Nat) (digits : Text) : Nat :=
  digits.foldl (fun n c => base * n + digitValue c) 0

/-- The character with a number, if there is one. -/
def charOf? (n : Nat) : Option Char :=
  if n.isValidChar then some (Char.ofNat n) else none

end Text

end ScriptAtlas
