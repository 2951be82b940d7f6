import ScriptAtlas.Document.Basic
import ScriptAtlas.Sorting

/-! # Looking into a document — lines, names and the cursor

    Which thread a line belongs to, which lexeme or symbol lies under a
    cursor, which names the script defines. -/

namespace ScriptAtlas.Document

open Text

/-- The thread whose body contains the line: the last one to start there or before, unless it has
    ended. -/
def threadIndexAt (d : Document) (line : Nat) : Option Nat :=
  match d.threads.zipIdx.findRev? fun (t, _) => t.line ≤ line with
  | some (t, index) => if t.endLine.any (· < line) then none else some index
  | none => none

/-- The thread whose body contains the line. -/
def threadAt (d : Document) (line : Nat) : Option Thread :=
  (d.threadIndexAt line).bind fun index => d.threads[index]?

/-- Whether the script defines a thread of that name. -/
def hasThread (d : Document) (name : Text) : Bool := d.threads.any fun t => sameName t.name name

/-- The labels of a thread. -/
def labelsOf (d : Document) (owner : Nat) : List Label := d.labels.filter (·.owner == owner)

/-- The first label of a thread with that name. -/
def findLabel (d : Document) (owner : Nat) (name : Text) : Option Label :=
  (d.labelsOf owner).find? fun l => sameName l.name name

/-- Whether some thread of the script has a label of that name. -/
def hasLabel (d : Document) (name : Text) : Bool := d.labels.any fun l => sameName l.name name

/-- The lexeme under the cursor, comments apart. -/
def lexemeAt (d : Document) (p : Position) : Option Lexeme :=
  d.lexemes.find? fun l => l.isSignificant && l.span.covers p

/-- The lexemes of a line; lexemes go by lines, so they stand together behind those of the lines
    before. -/
def lineLexemes (d : Document) (line : Nat) : List Lexeme :=
  (d.lexemes.drop (partitionPoint (·.line < line) d.lexemes)).takeWhile (·.line == line)

/-- The kinds of lexemes that name a symbol. -/
def namesSymbol : Kind → Bool
  | .threadName _ | .labelDef | .parameter _ | .scopePrefix _ | .property _ _ | .crossRefName
  | .word => true
  | _ => false

/-- The name that the lexeme with that index stands for: a plain name, a variable with its scope, or
    `path::name`. -/
def symbolText (d : Document) (index : Nat) (l : Lexeme) : Option Text :=
  match l.kind with
  | .property scope _ => some (scope.qualify l.text)
  | .parameter scope => some (scope.qualify l.text)
  | .scopePrefix scope => d.lexemes[index + 2]?.map fun name => scope.qualify name.text
  | .crossRefName =>
    if index < 2 then none
    else d.lexemes[index - 2]?.map fun path => path.text ++ ':' :: ':' :: l.text
  | _ => some l.text

/-- The name under the cursor, as the symbol index understands it. -/
def symbolAt (d : Document) (p : Position) : Option Text :=
  match d.lexemes.zipIdx.find? fun (l, _) => l.span.covers p && namesSymbol l.kind with
  | some (l, index) => d.symbolText index l
  | none => none

end ScriptAtlas.Document
