import ScriptAtlas.Settings.Value

/-! # TOML, the words — blanks, comments, strings, keys

    Strings are basic (with escapes) or literal (as they are), each also over
    several lines between three quotes.  A string over several lines may hold
    quotes, up to two of them right before its end. -/

namespace ScriptAtlas.Toml

open Reader

/-- Whether a character is a blank within a line. -/
def isBlank (c : Char) : Bool := c == ' ' || c == '\t'

/-- Whether a character may stand in a comment or, its own signs apart, in a string. -/
def isPlain (c : Char) : Bool := c == '\t' || (0x20 ≤ c.toNat && c.toNat != 0x7F)

/-- Reads blanks within a line. -/
def blanks : Reader Unit := do let _ ← takeWhile isBlank

/-- Reads a line break. -/
def newline : Reader Unit := char '\n' <|> literal ['\r', '\n']

/-- Reads a comment. -/
def comment : Reader Unit := do
  char '#'
  let _ ← takeWhile isPlain

/-- Reads the rest of a line that says nothing more. -/
def lineEnd : Reader Unit := do
  blanks
  let _ ← optionally comment
  newline <|> atEnd

/-- Reads what may stand between the items of a list: blanks, line breaks and comments. -/
def gap : Reader Unit := do
  let _ ← many ((do let _ ← takeSome isBlank) <|> newline <|> comment)

/-- Reads a character given by so many hexadecimal digits. -/
def readNumbered (digits : Nat) : Reader Char := do
  let number := Text.numeral 16 (← times (satisfy (Text.isDigitOf 16)) digits)
  (Text.charOf? number).elim failure pure

/-- Reads a backslash and what it stands for. -/
def readEscape : Reader Char := do
  char '\\'
  match ← satisfy fun _ => true with
  | 'b' => return '\x08'
  | 't' => return '\t'
  | 'n' => return '\n'
  | 'f' => return '\x0c'
  | 'r' => return '\r'
  | '"' => return '"'
  | '\\' => return '\\'
  | 'u' => readNumbered 4
  | 'U' => readNumbered 8
  | _ => failure

/-- Reads a basic string on one line. -/
def basicString : Reader Text := do
  char '"'
  let t ← many (readEscape <|> satisfy fun c => isPlain c && c != '"' && c != '\\')
  char '"'
  return t

/-- Reads a literal string on one line. -/
def literalString : Reader Text := do
  char '\''
  let t ← takeWhile fun c => isPlain c && c != '\''
  char '\''
  return t

/-- Reads a backslash at the end of a line, with all blanks and line breaks after it. -/
def joinedLines : Reader Text := do
  char '\\'
  blanks
  newline
  let _ ← many ((do let _ ← takeSome isBlank) <|> newline)
  return []

/-- Reads quotes that do not end a string over several lines: one or two. -/
def innerQuotes (quote : Char) : Reader Text := do
  let quotes ← takeSome (· == quote)
  if quotes.length < 3 then return quotes else failure

/-- Reads the end of a string over several lines, with the quotes before it that belong to it. -/
def lastQuotes (quote : Char) : Reader Text := do
  let quotes ← takeSome (· == quote)
  if 3 ≤ quotes.length && quotes.length ≤ 5 then return quotes.drop 3 else failure

/-- Reads a string over several lines between three quotes, a line break at its start left out. -/
def longString (quote : Char) (content : Reader Text) : Reader Text := do
  literal [quote, quote, quote]
  let _ ← optionally newline
  let parts ← many (content <|> (newline *> pure ['\n']) <|> innerQuotes quote)
  return parts.flatten ++ (← lastQuotes quote)

/-- Reads a basic string over several lines. -/
def longBasicString : Reader Text :=
  longString '"' (takeSome (fun c => isPlain c && c != '"' && c != '\\') <|> joinedLines
    <|> (do return [← readEscape]))

/-- Reads a literal string over several lines. -/
def longLiteralString : Reader Text := longString '\'' (takeSome fun c => isPlain c && c != '\'')

/-- Reads a string. -/
def readString : Reader Text :=
  longBasicString <|> basicString <|> longLiteralString <|> literalString

/-- Whether a character may stand in a key without quotes. -/
def isKeyChar (c : Char) : Bool := c.isAlphanum || c == '_' || c == '-'

/-- Reads a part of a key. -/
def simpleKey : Reader Text := basicString <|> literalString <|> takeSome isKeyChar

/-- How many parts a key may have, and how deep lists and tables nest. -/
def limit : Nat := 79

/-- Reads a key: parts with points between them. -/
def readKey : Reader (List Text) := do
  let parts ← separated (blanks *> simpleKey <* blanks) (char '.')
  if parts.length ≤ limit then return parts else failure

end ScriptAtlas.Toml
