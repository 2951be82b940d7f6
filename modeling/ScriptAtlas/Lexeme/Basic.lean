import ScriptAtlas.Span
import ScriptAtlas.Vocabulary

/-! # Lexemes — the smallest pieces of a script that carry a role

    A lexeme stands on one line, at a column, and is its own text.  Its kind
    is the structural role that can be told from the line it stands on and the
    lines before it; what a name refers to is decided later, against the whole
    script. -/

namespace ScriptAtlas

/-- The structural role of a lexeme. -/
inductive Kind where
  | comment
  | string
  | number
  /-- The name in a thread header. -/
  | threadName (role : ThreadRole)
  /-- The name of a parameter in a thread header. -/
  | parameter (scope : Scope)
  | labelDef
  | keyword
  /-- An `end` that closes the open thread. -/
  | threadEnd
  /-- The word `#include`. -/
  | directive
  | scopePrefix (scope : Scope)
  /-- A name after a scope and a dot, and whether it is assigned to. -/
  | property (scope : Scope) (write : Bool)
  /-- A name after a dot that follows anything else. -/
  | member
  /-- A script path such as `global/spawner.scr`. -/
  | pathRef
  /-- The name after `path::`. -/
  | crossRefName
  | word
  | operator
  /-- A character that belongs to nothing else. -/
  | stray
deriving DecidableEq, Repr

/-- Everything but a comment is significant. -/
def Kind.isSignificant (k : Kind) : Bool := k != .comment

/-- A lexeme: where it starts, its role and its text. -/
structure Lexeme where
  line : Nat
  column : Nat
  kind : Kind
  text : Text
deriving DecidableEq, Repr

namespace Lexeme

/-- The number of characters. -/
def length (l : Lexeme) : Nat := l.text.length

/-- The column just past the last character. -/
def endColumn (l : Lexeme) : Nat := l.column + l.length

/-- The range of the lexeme. -/
def span (l : Lexeme) : Span := .onLine l.line l.column l.endColumn

/-- Whether the lexeme is not a comment. -/
def isSignificant (l : Lexeme) : Bool := l.kind.isSignificant

/-- Whether the lexeme is that operator. -/
def isOperator (l : Lexeme) (op : String) : Bool := l.kind == .operator && l.text == op.toList

/-- Whether the lexeme is that keyword, in any letter case. -/
def isKeyword (l : Lexeme) (word : String) : Bool :=
  (l.kind == .keyword || l.kind == .threadEnd) && Text.sameName l.text word.toList

end Lexeme

/-- What the start of a line inherits from the lines before it. -/
structure LineInfo where
  /-- The depth of open braces inside the thread. -/
  depth : Nat
  /-- Whether the line goes on with the statement of the line before. -/
  continued : Bool
  /-- Whether its statement is the body of a control header without braces. -/
  bracelessBody : Bool
deriving DecidableEq, Repr

end ScriptAtlas
