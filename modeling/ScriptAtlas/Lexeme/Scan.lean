import ScriptAtlas.Lexeme.Header
import ScriptAtlas.Text.Lines

/-! # Scanning — from text to lexemes

    Rows are read from left to right.  At every character that is not blank an
    ordered list of matchers is tried, and the first that answers cuts one or
    more pieces off; if none does, the character is a stray by itself.  From
    one row to the next goes a small state: an open comment, an open thread
    and its depth of braces, and how far the current statement has come.

    * `Context.cut` takes the next pieces,
    * `cutRow` reads a row into pieces,
    * `State.afterRow` says what the next row inherits,
    * `scan` puts the rows together. -/

namespace ScriptAtlas

open Vocabulary Text

namespace Scan

/-- What is carried from row to row. -/
structure State where
  /-- A block comment is open. -/
  inComment : Bool
  /-- A thread header has been seen and not yet its closing `end`. -/
  threadOpen : Bool
  /-- The depth of open braces in the thread. -/
  depth : Nat
  /-- The last complete statement is a control header without braces. -/
  bracelessPending : Bool
  /-- The row before ended in a backslash. -/
  continued : Bool
  /-- The keyword that starts the current statement, in lower case. -/
  head : Option Text
  /-- The current statement has opened a brace. -/
  openedBrace : Bool
deriving DecidableEq, Repr

/-- The state before the first row. -/
def State.initial : State :=
  { inComment := false, threadOpen := false, depth := 0, bracelessPending := false,
    continued := false, head := none, openedBrace := false }

/-- What the state says about the row that starts. -/
def State.info (s : State) : LineInfo :=
  { depth := s.depth, continued := s.continued,
    bracelessBody := !s.continued && s.bracelessPending }

/-- A place within a row: the state there, and the pieces already cut, the latest first. -/
structure Context where
  state : State
  done : List Piece
deriving DecidableEq, Repr

/-- The next pieces, and the state after them. -/
structure Cut where
  pieces : List Piece
  state : State
deriving DecidableEq, Repr

namespace Context

/-- Whether a statement starts here. -/
def atStatementStart (c : Context) : Bool :=
  !c.state.continued && !c.done.any Piece.isSignificant

/-- Whether a script path is expected here: the last lexeme is `#include`, `exec` or `waitexec`. -/
def expectsPath (c : Context) : Bool :=
  match c.done.find? Piece.isSignificant with
  | some (.lexeme .directive _) => true
  | some p => p.isKeyword "exec" || p.isKeyword "waitexec"
  | none => false

/-- Pieces that leave the state as it is. -/
def keep (c : Context) (ps : List Piece) : Cut := ⟨ps, c.state⟩

/-- The place after a cut. -/
def advance (c : Context) (cut : Cut) : Context :=
  ⟨cut.state, cut.pieces.reverse ++ c.done⟩

end Context

/-- A matcher looks at the characters ahead and takes the first of them, or declines. -/
abbrev Matcher := Context → Text → Option Cut

/-- A comment that runs to the end of the row, without the blanks there. -/
def restAsComment (t : Text) : List Piece :=
  .lexeme .comment (trimEnd t) :: Piece.gaps (t.drop (trimEnd t).length)

/-- The comment that an earlier row has opened. -/
def openComment : Matcher := fun c t =>
  if c.state.inComment then
    match Shape.throughClose t with
    | some closed => some ⟨[.lexeme .comment closed], { c.state with inComment := false }⟩
    | none => some (c.keep (restAsComment t))
  else none

/-- A comment from `//` to the end of the row. -/
def lineComment : Matcher := fun c t =>
  match t with
  | '/' :: '/' :: _ => some (c.keep (restAsComment t))
  | _ => none

/-- A comment from `/*` to `*/`, or to the end of the row and on. -/
def blockComment : Matcher := fun c t =>
  match t with
  | '/' :: '*' :: rest =>
    match Shape.throughClose rest with
    | some closed => some (c.keep [.lexeme .comment ('/' :: '*' :: closed)])
    | none => some ⟨restAsComment t, { c.state with inComment := true }⟩
  | _ => none

/-- A string in double quotes; the end of the row ends it too. -/
def stringLiteral : Matcher := fun c t =>
  match t with
  | '"' :: rest => some (c.keep [.lexeme .string ('"' :: Shape.stringTail rest)])
  | _ => none

/-- A number. -/
def numberLiteral : Matcher := fun c t =>
  if t.head?.any Char.isDigit then some (c.keep [.lexeme .number (Shape.number t)]) else none

/-- A thread header, at the start of a row that starts a statement.  Inside an open thread a bare
    `name:` is a label of that thread. -/
def threadHeader : Matcher := fun c t =>
  if c.done.isEmpty && !c.state.continued && Shape.startsIdentifier t then
    match Header.ofText? t with
    | none => none
    | some h =>
      if isKeyword h.name || isScope h.name then none
      else if c.state.threadOpen && h.isBare then some (c.keep (h.pieces .labelDef))
      else
        some ⟨h.pieces (.threadName (ThreadRole.ofName h.name)),
          { c.state with threadOpen := true, depth := 0, bracelessPending := false }⟩
  else none

/-- A label inside an open thread: an indented name and a colon that end the row. -/
def labelDefinition : Matcher := fun c t =>
  if !c.done.isEmpty && c.state.threadOpen && c.atStatementStart && Shape.startsIdentifier t then
    let name := Shape.word t
    let gap := Shape.blanks (t.drop name.length)
    if Shape.isClosingColon (t.drop (name.length + gap.length)) && !isKeyword name then
      some (c.keep (.lexeme .labelDef name :: Piece.gaps gap ++ [.lexeme .operator [':']]))
    else none
  else none

/-- Whether an `end` here closes the open thread. -/
def Context.closesThread (c : Context) : Bool :=
  c.state.threadOpen && c.state.depth == 0 && c.atStatementStart && !c.state.bracelessPending

/-- A reserved word or `#include`. -/
def reservedWord : Matcher := fun c t =>
  match t with
  | '#' :: rest =>
    let name := Shape.word rest
    if sameName name "include".toList then some (c.keep [.lexeme .directive ('#' :: name)])
    else none
  | _ =>
    let name := Shape.word t
    if Shape.startsIdentifier t && isKeyword name && (Shape.path? c.expectsPath t).isNone then
      if sameName name "end".toList && c.closesThread then
        some ⟨[.lexeme .threadEnd name], { c.state with threadOpen := false }⟩
      else some (c.keep [.lexeme .keyword name])
    else none

/-- A storage scope that stands before a dot and a name. -/
def scopeWord : Matcher := fun c t =>
  let name := Shape.word t
  match Scope.ofWord? name, t.drop name.length with
  | some scope, '.' :: rest =>
    if Shape.startsIdentifier t && Shape.startsIdentifier rest then
      some (c.keep [.lexeme (.scopePrefix scope) name])
    else none
  | _, _ => none

/-- The kind of a name after a dot, by the piece that the dot follows at once. -/
def dottedKind (previous : Option Piece) (afterName : Text) : Option Kind :=
  match previous with
  | some (.lexeme (.scopePrefix scope) _) => some (.property scope (Shape.assignsAfter 0 afterName))
  | some (.lexeme (.property _ _) _) => some .member
  | some (.lexeme .member _) => some .member
  | some (.lexeme (.parameter _) _) => some .member
  | some (.lexeme .word _) => some .member
  | some (.lexeme .operator op) =>
    if op == [']'] || op == [')'] then some .member else none
  | _ => none

/-- A dot and a name directly after what they belong to. -/
def dottedName : Matcher := fun c t =>
  match t with
  | '.' :: rest =>
    if Shape.startsIdentifier rest then
      let name := Shape.word rest
      (dottedKind c.done.head? (rest.drop name.length)).map fun kind =>
        c.keep [.lexeme .operator ['.'], .lexeme kind name]
    else none
  | _ => none

/-- The name after `::`, if an identifier starts there. -/
def crossName (t : Text) : List Piece :=
  if Shape.startsIdentifier t then [.lexeme .crossRefName (Shape.word t)] else []

/-- A script path, with `::` and a name if they follow. -/
def pathReference : Matcher := fun c t =>
  match Shape.path? c.expectsPath t with
  | none => none
  | some path =>
    match t.drop path.length with
    | ':' :: ':' :: rest =>
      some (c.keep (.lexeme .pathRef path :: .lexeme .operator [':', ':'] :: crossName rest))
    | _ => some (c.keep [.lexeme .pathRef path])

/-- Any other identifier. -/
def plainWord : Matcher := fun c t =>
  if Shape.startsIdentifier t then some (c.keep [.lexeme .word (Shape.word t)]) else none

/-- The depth of braces after an operator. -/
def depthAfter (op : Text) (depth : Nat) : Nat :=
  if op == ['\x7b'] then depth + 1 else if op == ['\x7d'] then depth - 1 else depth

/-- An operator; braces change the depth. -/
def operatorSign : Matcher := fun c t =>
  (Shape.operator? t).map fun op =>
    ⟨[.lexeme .operator op], { c.state with depth := depthAfter op c.state.depth }⟩

/-- The matchers in order of precedence. -/
def matchers : List Matcher :=
  [openComment, lineComment, blockComment, stringLiteral, numberLiteral, threadHeader,
   labelDefinition, reservedWord, scopeWord, dottedName, pathReference, plainWord, operatorSign]

/-- The pieces that the first matcher to answer takes, else a stray character. -/
def Context.cut (c : Context) (t : Text) : Cut :=
  (matchers.findSome? fun m => m c t).getD (c.keep [.lexeme .stray (t.take 1)])

/-- Reads the rest of a row; the next `covered` characters belong to pieces already cut. -/
def cutFrom (c : Context) : (covered : Nat) → Text → Context
  | _, [] => c
  | covered + 1, _ :: rest => cutFrom c covered rest
  | 0, a :: rest =>
    if isBlank a then cutFrom (c.advance (c.keep [.gap [a]])) 0 rest
    else
      let next := c.cut (a :: rest)
      cutFrom (c.advance next) (Piece.width next.pieces - 1) rest

/-- A row cut into pieces, and the state at its end. -/
def cutRow (s : State) (row : Text) : Cut :=
  let c := cutFrom ⟨s, []⟩ 0 row
  ⟨c.done.reverse, c.state⟩

/-- Whether the parenthesis that closes the first group is the last piece; `depth` counts the open
    ones. -/
def endsWithClose : (depth : Nat) → List Piece → Bool
  | _, [] => false
  | depth, p :: ps =>
    if p.isOperator "(" then endsWithClose (depth + 1) ps
    else if p.isOperator ")" && depth != 0 then
      if depth == 1 then ps.isEmpty else endsWithClose (depth - 1) ps
    else endsWithClose depth ps

/-- Whether a statement with that head, ending in these pieces, is a control header whose body is the
    next statement: nothing follows its `else` or its condition, and no brace is open. -/
def isBracelessHeader (head : Option Text) (openedBrace : Bool) (significant : List Piece) : Bool :=
  match head with
  | none => false
  | some word =>
    isControlHeader word && !openedBrace
      && ((word == "else".toList && significant.getLast?.any (Piece.isKeyword "else"))
        || endsWithClose 0 significant)

/-- The keyword that starts a statement with these pieces, in lower case. -/
def headOf (significant : List Piece) : Option Text :=
  match significant with
  | .lexeme .keyword t :: _ => some (lower t)
  | _ => none

/-- What the next row inherits, from the state at the end of a row and its pieces. -/
def State.afterRow (s : State) (pieces : List Piece) : State :=
  let significant := pieces.filter Piece.isSignificant
  if significant.isEmpty then { s with continued := false }
  else
    let head := if s.continued then s.head else headOf significant
    let openedBrace :=
      (s.continued && s.openedBrace) || significant.any (Piece.isOperator "\x7b")
    let continues := significant.getLast?.any (Piece.isOperator "\\")
    { s with
      head, openedBrace
      continued := continues
      bracelessPending :=
        if continues then s.bracelessPending
        else isBracelessHeader head openedBrace significant }

end Scan

/-- A scanned text: its lexemes in order, and what each row inherits. -/
structure Scan where
  lexemes : List Lexeme
  lines : List LineInfo
deriving DecidableEq, Repr

/-- The scan of the rows from number `line` on. -/
def Scan.ofRows (s : Scan.State) (line : Nat) : List Text → Scan
  | [] => ⟨[], []⟩
  | row :: rows =>
    let cut := Scan.cutRow s row
    let rest := Scan.ofRows (cut.state.afterRow cut.pieces) (line + 1) rows
    ⟨Piece.layOut line 0 cut.pieces ++ rest.lexemes, s.info :: rest.lines⟩

/-- The lexemes and lines of a text. -/
def scan (t : Text) : Scan := Scan.ofRows .initial 0 (rows t)

end ScriptAtlas
