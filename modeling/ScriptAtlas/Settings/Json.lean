import ScriptAtlas.Settings.Value

/-! # JSON — settings as objects

    The strict grammar, nested up to a limit.  Of two members with one key the
    later counts.  A number without fraction and exponent is an integer if it
    fits into 64 binary digits with a sign; other numbers are their leading
    digits scaled by a power of ten. -/

namespace ScriptAtlas.Json

open Reader

/-- How deep lists and objects nest at most. -/
def depthLimit : Nat := 127

/-- Reads blanks. -/
def blanks : Reader Unit := do
  let _ ← takeWhile fun c => c == ' ' || c == '\n' || c == '\t' || c == '\r'

/-- Reads a character and the blanks before it. -/
def sign (c : Char) : Reader Unit := blanks *> char c

/-- Reads four hexadecimal digits. -/
def readUnit : Reader Nat := do
  return Text.numeral 16 (← times (satisfy (Text.isDigitOf 16)) 4)

/-- Whether a unit is the first of a pair. -/
def isHighUnit (n : Nat) : Bool := 0xD800 ≤ n && n < 0xDC00

/-- Whether a unit is the second of a pair. -/
def isLowUnit (n : Nat) : Bool := 0xDC00 ≤ n && n < 0xE000

/-- Reads a character given by number, as one unit or as a pair of them. -/
def readNumbered : Reader Char := do
  let unit ← readUnit
  if isHighUnit unit then
    literal ['\\', 'u']
    let second ← readUnit
    if isLowUnit second then
      (Text.charOf? (0x10000 + (unit - 0xD800) * 0x400 + (second - 0xDC00))).elim failure pure
    else failure
  else (Text.charOf? unit).elim failure pure

/-- Reads what follows a backslash. -/
def readEscape : Reader Char := do
  match ← satisfy fun _ => true with
  | '"' => return '"'
  | '\\' => return '\\'
  | '/' => return '/'
  | 'b' => return '\x08'
  | 'f' => return '\x0c'
  | 'n' => return '\n'
  | 'r' => return '\r'
  | 't' => return '\t'
  | 'u' => readNumbered
  | _ => failure

/-- Reads a character of a string. -/
def readChar : Reader Char :=
  (char '\\' *> readEscape) <|> satisfy fun c => c != '"' && c != '\\' && 0x20 ≤ c.toNat

/-- Reads a string. -/
def readString : Reader Text := char '"' *> many readChar <* char '"'

/-- The significand of digits: the leading ones that fit into 64 binary digits, and how many are
    left. -/
def leadingDigits (start : Nat) : Text → Nat × Text
  | [] => (start, [])
  | c :: cs =>
    let next := 10 * start + Text.digitValue c
    if next ≤ Double.greatestWord then leadingDigits next cs else (start, c :: cs)

/-- A significand times a power of ten; nothing if that is too large.  The power is applied in one
    step, or below `10 ^ -308` in two. -/
def scaled? (significand : Nat) (exponent : Int) : Option Double :=
  let x := Double.ofNat significand
  if 308 < exponent then (if significand == 0 then some x else none)
  else if 0 ≤ exponent then
    match x.timesPowerOfTen exponent.toNat with
    | .infinite _ => none
    | y => some y
  else if -308 ≤ exponent then some (x.overPowerOfTen (-exponent).toNat)
  else if -616 ≤ exponent then
    some ((x.overPowerOfTen 308).overPowerOfTen (-exponent - 308).toNat)
  else some (.zero false)

/-- Reads an exponent. -/
def readExponent : Reader Int := do
  let _ ← satisfy fun c => c == 'e' || c == 'E'
  let negative := (← optionally (char '-')).isSome
  if !negative then let _ ← optionally (char '+')
  let digits := Text.numeral 10 (← takeSome Char.isDigit)
  return if negative then -digits else digits

/-- Reads a whole number without leading zeros. -/
def readWhole : Reader Text := do
  let digits ← takeSome Char.isDigit
  if digits.head? == some '0' && 1 < digits.length then failure else return digits

/-- Reads a number. -/
def readNumber : Reader Value := do
  let negative := (← optionally (char '-')).isSome
  let whole ← readWhole
  let fraction ← optionally (char '.' *> takeSome Char.isDigit)
  let exponent ← optionally readExponent
  let (start, dropped) := leadingDigits 0 whole
  let n : Int := if negative then -start else start
  let isZero := negative && start == 0
  if dropped.isEmpty && fraction.isNone && exponent.isNone && !isZero && Value.isWord n then
    return .integer n
  else
    let fraction := fraction.getD []
    let (significand, left) := leadingDigits start fraction
    let places : Int := (dropped.length : Int) - ((fraction.length - left.length : Nat) : Int)
    match scaled? significand (places + exponent.getD 0) with
    | some x => return .double (if negative then x.neg else x)
    | none => failure

/-- The later of two members with one key counts. -/
def objectOf (members : List (Text × Value)) : Value :=
  .table (members.foldl (fun entries (key, value) => Value.putEntry key value entries) [])

/-- Reads a list in which `item` reads the items. -/
def readList (item : Reader Value) : Reader Value := do
  char '['
  let items ← separated item (sign ',') <|> pure []
  sign ']'
  return .list items

/-- Reads a member of an object in which `item` reads the values. -/
def readMember (item : Reader Value) : Reader (Text × Value) := do
  blanks
  let key ← readString
  sign ':'
  return (key, ← item)

/-- Reads an object in which `item` reads the values. -/
def readObject (item : Reader Value) : Reader Value := do
  char '\x7b'
  let members ← separated (readMember item) (sign ',') <|> pure []
  sign '\x7d'
  return objectOf members

/-- Reads a value without parts. -/
def readScalar : Reader Value :=
  (literal "null".toList *> pure .null) <|> (literal "true".toList *> pure (.bool true))
    <|> (literal "false".toList *> pure (.bool false)) <|> (.text <$> readString) <|> readNumber

/-- Reads a value that nests at most so deep. -/
def readValue : (depth : Nat) → Reader Value
  | 0 => blanks *> readScalar
  | depth + 1 => blanks *> (readList (readValue depth) <|> readObject (readValue depth) <|> readScalar)

/-- The entries of a text that is an object. -/
def parse? (t : Text) : Option (List (Text × Value)) :=
  match Reader.whole? (readValue depthLimit <* blanks) t with
  | some (.table entries) => some entries
  | _ => none

end ScriptAtlas.Json
