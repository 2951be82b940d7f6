import ScriptAtlas.Lexeme.Piece
import ScriptAtlas.Lexeme.Shape

/-! # Headers — the first line of a thread

    A header is a name, parameters and a colon: `name:`, `name local.a local.b:`
    or `name (local.a, local.b):`.  The line is first cut into runs (words,
    blanks, single characters); the parameters are then read run by run. -/

namespace ScriptAtlas

open Vocabulary Text Shape

/-- A thread header: its name, and the pieces between the name and the colon. -/
structure Header where
  name : Text
  middle : List Piece

namespace Header

/-- Whether two neighbouring characters belong to one run. -/
def sameRun (a b : Char) : Bool :=
  (isIdentifierChar a && isIdentifierChar b) || (isBlank a && isBlank b)

/-- The longest words and stretches of blanks, and every other character by itself. -/
def runs : Text → List Text
  | [] => []
  | c :: cs =>
    match runs cs with
    | (d :: ds) :: rest => if sameRun c d then (c :: d :: ds) :: rest else [c] :: (d :: ds) :: rest
    | rest => [c] :: rest

/-- Whether a run consists of blanks. -/
def isBlankRun (r : Text) : Bool := r.head?.any isBlank

/-- The blanks before the next other run, and the runs from there. -/
def skipBlanks : List Text → Text × List Text
  | r :: rs => if isBlankRun r then (r, rs) else ([], r :: rs)
  | [] => ([], [])

/-- The parameters and the runs after them.  In parentheses, commas may stand between them and the
    closing parenthesis ends them; otherwise the first other run does. -/
def parameters (parenthesized : Bool) : List Text → Option (List Piece × List Text)
  | [] => if parenthesized then none else some ([], [])
  | r :: rs =>
    if isBlankRun r then
      (parameters parenthesized rs).map fun (ps, rest) => (.gap r :: ps, rest)
    else if parenthesized && r == [','] then
      (parameters parenthesized rs).map fun (ps, rest) => (.lexeme .operator r :: ps, rest)
    else if parenthesized && r == [')'] then some ([.lexeme .operator r], rs)
    else if startsIdentifier r then
      match Scope.ofWord? r, rs with
      | some scope, dot :: name :: rs' =>
        if dot == ['.'] && startsIdentifier name then
          (parameters parenthesized rs').map fun (ps, rest) =>
            (.lexeme (.scopePrefix scope) r :: .lexeme .operator dot
              :: .lexeme (.parameter scope) name :: ps, rest)
        else none
      | _, _ => none
    else if parenthesized then none
    else some ([], r :: rs)

/-- The pieces of the header when its name has the given role. -/
def pieces (h : Header) (nameKind : Kind) : List Piece :=
  .lexeme nameKind h.name :: h.middle ++ [.lexeme .operator [':']]

/-- Whether the header is a name and a colon only. -/
def isBare (h : Header) : Bool := !h.middle.any Piece.isLexeme

/-- The header that starts the text, if the text is a header line. -/
def ofText? (t : Text) : Option Header :=
  let name := word t
  let (gap, rs) := skipBlanks (runs (t.drop name.length))
  let (opening, rs) :=
    match rs with
    | ['('] :: rs' => ([Piece.lexeme .operator ['(']], rs')
    | _ => ([], rs)
  match parameters (!opening.isEmpty) rs with
  | none => none
  | some (parts, rs) =>
    let (gap', rs) := skipBlanks rs
    if isClosingColon rs.flatten then
      some ⟨name, Piece.gaps gap ++ opening ++ parts ++ Piece.gaps gap'⟩
    else none

end Header

end ScriptAtlas
