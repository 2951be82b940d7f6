import ScriptAtlas.Number.Double
import ScriptAtlas.Text.Reader

/-! # Settings values — what settings files hold, and how files are laid over others

    Files are laid over each other key by key: a table joins the table below it,
    anything else replaces what is below it.  Keys are taken in lower case.  A
    key at the top of a file may be a way into the settings, such as
    `rules.unused_label` or `extra_builtins[0]`. -/

namespace ScriptAtlas

/-- A value of a settings file. -/
inductive Value where
  | null
  | bool (b : Bool)
  | integer (n : Int)
  | double (x : Double)
  | text (t : Text)
  | list (items : List Value)
  | table (entries : List (Text × Value))
deriving Repr

namespace Value

/-- A letter in lower case: of all letters beyond ASCII, only the Kelvin sign has one of ASCII. -/
def lowerLetter (c : Char) : Char := if c == 'K' then 'k' else c.toLower

/-- A key in lower case. -/
def lowerKey (key : Text) : Text := key.map lowerLetter

/-- The entries of a table; other values have none. -/
def entries : Value → List (Text × Value)
  | table entries => entries
  | _ => []

/-- The items of a list; other values have none. -/
def items : Value → List Value
  | list items => items
  | _ => []

/-- Puts a value at a key, in place of what was there. -/
def putEntry (key : Text) (value : Value) : List (Text × Value) → List (Text × Value)
  | [] => [(key, value)]
  | (k, v) :: rest => if k == key then (key, value) :: rest else (k, v) :: putEntry key value rest

/-- The value at a key. -/
def get? (v : Value) (key : Text) : Option Value :=
  (v.entries.find? fun e => e.1 == key).map (·.2)

mutual

/-- A value with another laid over it at a key.  What is not a table becomes one. -/
def lay (key : Text) (below : Value) : Value → Value
  | table incoming =>
    let target := (below.get? (lowerKey key)).getD (table [])
    table (putEntry (lowerKey key) (layEntries target incoming) below.entries)
  | value => table (putEntry (lowerKey key) value below.entries)

/-- A value with the entries of a table laid over it. -/
def layEntries (below : Value) : List (Text × Value) → Value
  | [] => below
  | (key, value) :: rest => layEntries (lay key below value) rest

end

/-- A step into a value: to a key of a table, or to an item of a list, from its end for a negative
    number. -/
inductive Step where
  | key (name : Text)
  | item (index : Int)
deriving DecidableEq, Repr

/-- Puts a value at an index of a list, after nulls if the list is too short. -/
def putItem (index : Int) (change : Value → Value) (items : List Value) : List Value :=
  let position := (if index < 0 then items.length + index else index).toNat
  let padded := items ++ List.replicate (position + 1 - items.length) null
  padded.modify position change

/-- A value with another laid over it at the end of a way; what is in the way gives way. -/
def layAt (value : Value) : List Step → Value → Value
  | [], _ => value
  | [.key name], below => lay name below value
  | .key name :: rest, below =>
    table (putEntry name (layAt value rest ((below.get? name).getD null)) below.entries)
  | .item index :: rest, below => list (putItem index (layAt value rest) below.items)

/-- Whether a character may stand in a name of a way. -/
def isNameChar (c : Char) : Bool := c.isAlphanum || c == ' ' || c == '_' || c == '-'

/-- Whether a number is a whole number of 64 binary digits with a sign. -/
def isWord (n : Int) : Bool := -9223372036854775808 ≤ n && n ≤ 9223372036854775807

/-- Reads an index in brackets. -/
def readIndex : Reader Step := do
  Reader.char '['
  let _ ← Reader.takeWhile fun c => c == ' ' || c == '\t'
  let negative := (← Reader.optionally (Reader.char '-')).isSome
  let magnitude : Int := Text.numeral 10 (← Reader.takeSome Char.isDigit)
  let index := if negative then -magnitude else magnitude
  let _ ← Reader.takeWhile fun c => c == ' ' || c == '\t'
  Reader.char ']'
  if isWord index then return .item index else failure

/-- Reads a name after a point. -/
def readChild : Reader Step := do
  Reader.char '.'
  return .key (← Reader.takeSome isNameChar)

/-- Reads a way. -/
def readWay : Reader (List Step) := do
  let name ← Reader.takeSome isNameChar
  return .key name :: (← Reader.many (readChild <|> readIndex))

/-- The way that a key at the top of a file is, in lower case; one that is none is taken as it is. -/
def wayOf (key : Text) : List Step :=
  (Reader.whole? readWay (lowerKey key)).getD [.key (lowerKey key)]

/-- Settings with a file laid over them. -/
def layFile (below : Value) (file : List (Text × Value)) : Value :=
  file.foldl (fun settings (key, value) => layAt value (wayOf key) settings) below

end Value

end ScriptAtlas
