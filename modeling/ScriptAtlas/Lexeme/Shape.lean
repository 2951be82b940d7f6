import ScriptAtlas.Vocabulary

/-! # Shapes — what stands at the start of a text

    Each function here looks at the characters ahead and says how far one
    written form reaches: a word, a number, a quoted string, a comment, a
    script path, an operator.  The answer is always a beginning of the text,
    so whoever uses it goes on after as many characters. -/

namespace ScriptAtlas.Shape

open Vocabulary Text

/-- The identifier characters at the start. -/
def word (t : Text) : Text := t.takeWhile isIdentifierChar

/-- The blanks at the start. -/
def blanks (t : Text) : Text := t.takeWhile isBlank

/-- Whether the text starts with an identifier. -/
def startsIdentifier (t : Text) : Bool := t.head?.any isIdentifierStart

/-- A run of digits, with a fraction if a point and a digit follow. -/
def number (t : Text) : Text :=
  let whole := t.takeWhile Char.isDigit
  match t.drop whole.length with
  | '.' :: d :: rest =>
    if d.isDigit then whole ++ '.' :: (d :: rest).takeWhile Char.isDigit else whole
  | _ => whole

/-- The characters of a quoted string after its opening quote, through the closing quote or to the
    end; a backslash takes the next character with it. -/
def stringTail : Text → Text
  | [] => []
  | '"' :: _ => ['"']
  | '\\' :: c :: rest => '\\' :: c :: stringTail rest
  | c :: rest => c :: stringTail rest

/-- The characters through the first `*/`, if there is one. -/
def throughClose : Text → Option Text
  | [] => none
  | '*' :: '/' :: _ => some ['*', '/']
  | c :: rest => (throughClose rest).map (c :: ·)

/-- The path that starts here: a run of path characters that ends in `.scr` or stands before `::`.
    Where a path is expected, a directory separator in the run is enough, so that `count/2`
    elsewhere stays a division. -/
def path? (expected : Bool) (t : Text) : Option Text :=
  let run := t.takeWhile isPathChar
  if t.head?.any (fun c => isIdentifierStart c || c == '.') && run.any isIdentifierChar
      && (".scr".toList.isSuffixOf (lower run)
        || "::".toList.isPrefixOf (t.drop run.length)
        || (expected && (run.contains '/' || run.contains '\\'))) then
    some run
  else none

/-- The operators of two characters. -/
def wideOperators : List Text :=
  ["::", "==", "!=", "<=", ">=", "&&", "||", "++", "--", "+=", "-=", "*=", "/="].map String.toList

/-- The operators of one character. -/
def narrowOperators : Text := "+-*/%=<>!&|^~()[]\x7b\x7d,;:.$@?#\\".toList

/-- The operator that starts here, the longer one first. -/
def operator? (t : Text) : Option Text :=
  if wideOperators.contains (t.take 2) then some (t.take 2)
  else if t.head?.any narrowOperators.contains then some (t.take 1)
  else none

/-- The operators of two characters that write to what stands before them. -/
def writeOperators : List Text := ["+=", "-=", "*=", "/=", "++", "--"].map String.toList

/-- Whether the text goes on with an assignment after any number of bracketed subscripts; `depth`
    counts the brackets that are open. -/
def assignsAfter : (depth : Nat) → Text → Bool
  | _, [] => false
  | 0, c :: rest =>
    if isBlank c then assignsAfter 0 rest
    else if c == '[' then assignsAfter 1 rest
    else if c == '=' then rest.head? != some '='
    else writeOperators.contains (c :: rest.take 1)
  | depth + 1, c :: rest =>
    if c == '[' then assignsAfter (depth + 2) rest
    else if c == ']' then assignsAfter depth rest
    else assignsAfter (depth + 1) rest

/-- Whether nothing but blanks stands before the end of the line or a comment. -/
def isTrailer (t : Text) : Bool :=
  match t.dropWhile isBlank with
  | [] => true
  | '/' :: c :: _ => c == '/' || c == '*'
  | _ => false

/-- Whether a colon, not a double one, starts here and ends the line but for a comment. -/
def isClosingColon (t : Text) : Bool :=
  match t with
  | ':' :: rest => rest.head? != some ':' && isTrailer rest
  | _ => false

end ScriptAtlas.Shape
