import ScriptAtlas.Settings.Toml.Node

/-! # TOML — settings as lines

    A file is a row of key lines and headers; a header opens a table for the key
    lines after it.  `parse?` gives the tables of a file, or nothing if a line
    breaks the grammar or a key is set twice. -/

namespace ScriptAtlas.Toml

open Reader

/-- Reads digits of a base, with an underscore between two of them perhaps. -/
def readDigits (base : Nat) : Reader Text := do
  let digit := satisfy (Text.isDigitOf base)
  let first ← digit
  return first :: (← many (digit <|> (char '_' *> digit)))

/-- Reads a sign: whether the number is negative. -/
def readSign : Reader Bool :=
  (char '-' *> pure true) <|> (char '+' *> pure false) <|> pure false

/-- Reads a decimal whole number without leading zeros. -/
def readWhole : Reader Text := do
  if (← peek) == some '0' then
    char '0'
    return ['0']
  else readDigits 10

/-- Reads a whole number in another base. -/
def readBased (mark : Char) (base : Nat) : Reader Value := do
  literal ['0', mark]
  let n : Int := Text.numeral base (← readDigits base)
  if Value.isWord n then return .integer n else failure

/-- Reads a decimal whole number. -/
def readInteger : Reader Value := do
  let negative ← readSign
  let magnitude : Int := Text.numeral 10 (← readWhole)
  let n := if negative then -magnitude else magnitude
  if Value.isWord n then return .integer n else failure

/-- Reads an exponent. -/
def readExponent : Reader Int := do
  let _ ← satisfy fun c => c == 'e' || c == 'E'
  let negative ← readSign
  let digits : Int := Text.numeral 10 (← readDigits 10)
  return if negative then -digits else digits

/-- Reads a number with a fraction or an exponent; too large a positive one is refused. -/
def readDouble : Reader Value := do
  let negative ← readSign
  let whole ← readWhole
  let fraction ← optionally (char '.' *> readDigits 10)
  let exponent ← optionally readExponent
  if fraction.isNone && exponent.isNone then failure
  let fraction := fraction.getD []
  let digits := Text.numeral 10 (whole ++ fraction)
  match Double.ofDecimal negative digits (exponent.getD 0 - fraction.length) with
  | .infinite false => failure
  | x => return .double x

/-- Reads a number that is written as a word. -/
def readSpecial : Reader Value := do
  let negative ← readSign
  (literal "inf".toList *> pure (.double (.infinite negative)))
    <|> (literal "nan".toList *> pure (.double .nan))

/-- Reads a string, a flag or a number. -/
def readPlain : Reader Value :=
  (.text <$> readString) <|> (literal "true".toList *> pure (.bool true))
    <|> (literal "false".toList *> pure (.bool false)) <|> readDouble <|> readSpecial
    <|> readBased 'x' 16 <|> readBased 'o' 8 <|> readBased 'b' 2 <|> readInteger

/-- Reads a value without parts. -/
def readScalar : Reader Node := (.moment <$> readMoment) <|> (.scalar <$> readPlain)

/-- Reads a list in which `item` reads the items; a comma may follow the last. -/
def readList (item : Reader Node) : Reader Node := do
  char '['
  let items ← (separated (gap *> item <* gap) (char ',') <* optionally (char ',')) <|> pure []
  gap
  char ']'
  return .list items

/-- Reads a key and its value, which `item` reads. -/
def readPair (item : Reader Node) : Reader (List Text × Node) := do
  let key ← readKey
  char '='
  blanks
  return (key, ← item)

/-- Reads a table between braces in which `item` reads the values. -/
def readInlineTable (item : Reader Node) : Reader Node := do
  char '\x7b'
  let pairs ← separated (readPair item <* blanks) (char ',') <|> pure []
  blanks
  char '\x7d'
  match pairs.foldlM (fun entries (key, node) => Entries.insert entries key node) [] with
  | some entries => return .table .braces entries
  | none => failure

/-- Reads a value that nests at most so deep. -/
def readNode : (depth : Nat) → Reader Node
  | 0 => readScalar
  | depth + 1 => readList (readNode depth) <|> readInlineTable (readNode depth) <|> readScalar

/-- A line of a file that says something. -/
inductive Line where
  | pair (key : List Text) (node : Node)
  | table (header : List Text)
  | row (header : List Text)
deriving Repr

/-- Reads a header between brackets. -/
def readHeader : Reader Line :=
  (literal ['[', '['] *> (.row <$> readKey) <* literal [']', ']'])
    <|> (char '[' *> (.table <$> readKey) <* char ']')

/-- Reads a line that says something, to its end. -/
def readLine : Reader Line := do
  blanks
  let line ← readHeader <|> (do let (key, node) ← readPair (readNode limit); return .pair key node)
  lineEnd
  return line

/-- Reads a line that says nothing. -/
def emptyLine : Reader Unit := do
  blanks
  let _ ← optionally comment
  newline

/-- Reads the lines of a file. -/
def readLines : Reader (List Line) := do
  let lines ← many ((emptyLine *> pure none) <|> (some <$> readLine))
  blanks
  let _ ← optionally comment
  return lines.filterMap id

/-- A file as it is read: the tables that are closed, and the one that is open under a header. -/
structure File where
  closed : Entries
  isRow : Bool
  header : List Text
  current : Entries

namespace File

/-- Closes the open table. -/
def finish (f : File) : Option Entries :=
  if f.header.isEmpty then some f.current
  else if f.isRow then
    f.closed.alterAbove f.header fun key inner =>
      match inner.get? key with
      | some (.tables rows) => some (inner.put key (.tables (rows ++ [f.current])))
      | none => some (inner.put key (.tables [f.current]))
      | some _ => none
  else f.closed.alterAbove f.header fun key inner => some (inner.put key (.table .header f.current))

/-- The keys that a table under a new header starts with: those that headers below it have set. -/
def opened? (key : Text) (inner : Entries) : Option Entries :=
  match inner.get? key with
  | none => some []
  | some (.table .implied entries) => some entries
  | some _ => none

/-- Opens a table under a header.  It is taken out of the tables that are closed, and will come last
    among its neighbours. -/
def openTable (entries : Entries) (header : List Text) : Option File := do
  let last ← header.getLast?
  -- the way to the table is made now, so that a header on a value is refused
  let made ← entries.alterAbove header fun _ inner => some inner
  let current ← opened? last (← made.tableAt? header.dropLast)
  let closed ← made.alterAbove header fun key inner => some (inner.erase key)
  return ⟨closed, false, header, current⟩

/-- Opens a table of a list under a header. -/
def openRow (entries : Entries) (header : List Text) : Option File := do
  let made ← entries.alterAbove header fun key inner =>
    match inner.get? key with
    | none | some (.tables _) => some inner
    | some _ => none
  return ⟨made, true, header, []⟩

/-- The file after one more line. -/
def step (f : File) : Line → Option File
  | .pair key node => (f.current.insert key node).map fun current => { f with current }
  | .table header => f.finish.bind fun entries => openTable entries header
  | .row header => f.finish.bind fun entries => openRow entries header

end File

/-- The entries of a file of lines. -/
def ofLines? (lines : List Line) : Option Entries :=
  (lines.foldlM File.step ⟨[], false, [], []⟩).bind File.finish

/-- The entries of a text. -/
def parse? (t : Text) : Option (List (Text × Value)) := do
  let lines ← Reader.whole? (optionally (char (Char.ofNat 0xFEFF)) *> readLines) t
  match ← tableToValue? (← ofLines? lines) with
  | .table entries => return entries
  | _ => failure

end ScriptAtlas.Toml
