import ScriptAtlas.Document.Lookup
import ScriptAtlas.Text.Lines

/-! # Calls — names before an opening parenthesis

    Candidates are taken from the text of a row, comments and strings included;
    those that start a bare word there are calls, unless what stands before
    the word makes it a thread, label or entity. -/

namespace ScriptAtlas.Calls

open Text Vocabulary

/-- Whether blanks and an opening parenthesis come next. -/
def opensParenthesis (t : Text) : Bool := (t.dropWhile isBlank).head? == some '('

/-- The names before an opening parenthesis, with their columns, from a column on; `within` a name
    that has been looked at, no other starts. -/
def candidatesFrom (column : Nat) (within : Bool) : Text → List (Nat × Text)
  | [] => []
  | c :: cs =>
    if isIdentifierStart c && !within then
      let name := (c :: cs).takeWhile isIdentifierChar
      let rest := candidatesFrom (column + 1) true cs
      if opensParenthesis ((c :: cs).drop name.length) then (column, name) :: rest else rest
    else candidatesFrom (column + 1) (within && isIdentifierChar c) cs

/-- The names before an opening parenthesis in a row. -/
def candidates (row : Text) : List (Nat × Text) := candidatesFrom 0 false row

/-- Whether the word after a lexeme is a thread, label or entity rather than a call. -/
def namesTarget (previous : Lexeme) : Bool :=
  match previous.kind with
  | .keyword =>
    (["thread", "waitthread", "goto", "exec", "waitexec"].map String.toList).contains
      (lower previous.text)
  | .operator => (["$", ".", ":", "::", "/"].map String.toList).contains previous.text
  | _ => false

/-- The bare word at a column, with the lexeme before it. -/
def wordAt? (column : Nat) : (previous : Option Lexeme) → List Lexeme → Option (Option Lexeme × Lexeme)
  | _, [] => none
  | previous, l :: ls =>
    if l.column == column && l.kind == .word then some (previous, l)
    else wordAt? column (some l) ls

/-- The calls of a row: the words before an opening parenthesis, from the row and its lexemes other
    than comments. -/
def ofRow (row : Text) (significant : List Lexeme) : List (Lexeme × Text) :=
  (candidates row).filterMap fun (column, name) =>
    match wordAt? column none significant with
    | some (previous, l) => if previous.any namesTarget then none else some (l, name)
    | none => none

/-- The calls of a script. -/
def ofScript (d : Document) (text : Text) : List (Lexeme × Text) :=
  (rows text).zipIdx.flatMap fun (row, line) =>
    ofRow row ((d.lineLexemes line).filter Lexeme.isSignificant)

end ScriptAtlas.Calls
