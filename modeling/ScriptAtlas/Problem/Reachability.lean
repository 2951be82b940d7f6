import ScriptAtlas.Document.Lookup
import ScriptAtlas.Problem.Basic

/-! # Reachability — code that control never comes to

    A line whose statement is `end`, `goto`, `break` or `continue`, and is not
    the body of a control header without braces, makes the lines after it dead.
    Lines are alive again from the next label, thread boundary, `case` or
    `default`, or from the brace that closes the block.  Lines without a lexeme
    other than comments count for nothing. -/

namespace ScriptAtlas.Reachability

open Text

/-- A line that counts: its number, what it inherits, and its lexemes other than comments. -/
structure Row where
  line : Nat
  info : LineInfo
  first : Lexeme
  last : Lexeme
deriving DecidableEq, Repr

/-- The line with that number, if it counts. -/
def row? (d : Document) (line : Nat) (info : LineInfo) : Option Row :=
  match (d.lineLexemes line).filter Lexeme.isSignificant with
  | [] => none
  | first :: rest => some ⟨line, info, first, rest.getLastD first⟩

/-- The lines of a document that count. -/
def rows (d : Document) : List Row :=
  d.lines.zipIdx.filterMap fun (info, line) => row? d line info

/-- Whether control never goes on from a line. -/
def isTerminator (r : Row) : Bool :=
  r.first.kind == .keyword && Vocabulary.isFlowTerminator r.first.text
    && !r.info.continued && !r.info.bracelessBody

/-- Whether a line is alive again after a terminator at that depth of braces. -/
def resumes (r : Row) (depth : Nat) : Bool :=
  match r.first.kind with
  | .threadName _ => true
  | .labelDef => true
  | .threadEnd => true
  | .keyword => r.first.isKeyword "case" || r.first.isKeyword "default"
  | .operator => if r.first.isOperator "\x7d" then r.info.depth ≤ depth else r.info.depth < depth
  | _ => r.info.depth < depth

/-- A terminator and the dead lines found after it. -/
structure Dead where
  depth : Nat
  terminator : Text
  /-- From the first dead lexeme to the end of the last. -/
  span : Option Span
deriving DecidableEq, Repr

/-- The range of the dead lines with one more.  Lines that go on with the terminator's own statement
    are part of it. -/
def Dead.extend (b : Dead) (r : Row) : Dead :=
  let stop : Position := ⟨r.line, r.last.endColumn⟩
  match b.span with
  | some span => { b with span := some ⟨span.start, stop⟩ }
  | none =>
    if r.info.continued then b
    else { b with span := some ⟨⟨r.line, r.first.column⟩, stop⟩ }

/-- The finding for dead lines, if there are any. -/
def Dead.finding? (b : Dead) : Option Finding :=
  b.span.map fun span => ⟨.unreachableCode b.terminator, span⟩

/-- The terminator that a living line is. -/
def opens? (d : Document) (r : Row) : Option Dead :=
  if (d.threadIndexAt r.line).isSome && isTerminator r then
    some ⟨r.info.depth, lower r.first.text, none⟩
  else none

/-- The findings from a line on, after the terminator in force. -/
def findingsFrom (d : Document) : (dead : Option Dead) → List Row → List Finding
  | dead, [] => (dead.bind Dead.finding?).toList
  | none, r :: rs => findingsFrom d (opens? d r) rs
  | some b, r :: rs =>
    if resumes r b.depth then b.finding?.toList ++ findingsFrom d (opens? d r) rs
    else findingsFrom d (some (b.extend r)) rs

/-- The dead code of a document. -/
def findings (d : Document) : List Finding := findingsFrom d none (rows d)

end ScriptAtlas.Reachability
