import ScriptAtlas.Document.Lookup

/-! # Tokens — lexemes with the meaning an editor colours

    Once the whole script is known, every lexeme becomes a token: a type and a
    set of modifiers.  Names are told apart by what the script defines and by
    what is known of the other scripts. -/

namespace ScriptAtlas

open Text

/-- The types of tokens, in the order of the editor's legend. -/
inductive TokenType where
  | keyword
  | function
  | var
  | label
  | parameter
  | property
  | qualifier
  | string
  | number
  | comment
  | operator
deriving DecidableEq, Repr

namespace TokenType

/-- Every type, in legend order. -/
def all : List TokenType :=
  [keyword, function, var, label, parameter, property, qualifier, string, number, comment,
   operator]

/-- The name of a type. -/
def name : TokenType → String
  | keyword => "keyword"
  | function => "function"
  | var => "variable"
  | label => "label"
  | parameter => "parameter"
  | property => "property"
  | qualifier => "namespace"
  | string => "string"
  | number => "number"
  | comment => "comment"
  | operator => "operator"

/-- The place of a type in the legend. -/
def index (t : TokenType) : Nat := all.idxOf t

end TokenType

/-- A set of modifiers, one per bit. -/
structure Modifiers where
  bits : Nat
deriving DecidableEq, Repr

namespace Modifiers

/-- No modifier. -/
def none : Modifiers := ⟨0⟩
/-- A declaration. -/
def declaration : Modifiers := ⟨1⟩
/-- A definition. -/
def definition : Modifiers := ⟨2⟩
/-- A read access. -/
def read : Modifiers := ⟨4⟩
/-- A write access. -/
def write : Modifiers := ⟨8⟩
/-- A function of the engine. -/
def builtin : Modifiers := ⟨16⟩
/-- A thread that the engine calls back. -/
def engineCallback : Modifiers := ⟨32⟩
/-- A thread that the engine starts. -/
def entryPoint : Modifiers := ⟨64⟩
/-- A definition that nothing refers to. -/
def unused : Modifiers := ⟨128⟩

/-- The modifiers of both sets. -/
def union (a b : Modifiers) : Modifiers := ⟨a.bits ||| b.bits⟩

instance : Union Modifiers := ⟨union⟩

/-- Whether a set holds all of another. -/
def contains (a b : Modifiers) : Bool := a.bits &&& b.bits == b.bits

/-- Whether no modifier is set. -/
def isEmpty (a : Modifiers) : Bool := a.bits == 0

/-- The modifiers with their names, in bit order. -/
def named : List (Modifiers × String) :=
  [(declaration, "declaration"), (definition, "definition"), (read, "read"), (write, "write"),
   (builtin, "builtin"), (engineCallback, "engineCallback"), (entryPoint, "entryPoint"),
   (unused, "unused")]

/-- The names of the modifiers in a set, in bit order. -/
def names (a : Modifiers) : List String :=
  (named.filter fun (m, _) => a.contains m).map (·.2)

/-- The names that the editor's legend gives the bits; two of them are the editor's own words. -/
def legend : List String :=
  ["declaration", "definition", "read", "modification", "defaultLibrary", "engineCallback",
   "entryPoint", "unused"]

/-- The modifier that a thread's role gives. -/
def ofRole : ThreadRole → Modifiers
  | .entryPoint => entryPoint
  | .engineCallback => engineCallback
  | .plain => none

end Modifiers

/-- A token: its place, its length, and what it is. -/
structure Token where
  line : Nat
  column : Nat
  length : Nat
  type : TokenType
  modifiers : Modifiers
deriving DecidableEq, Repr

namespace Token

/-- What a bare word is: a function of the engine, a thread of this script or a known one, a label
    of the thread around it, or else a variable. -/
def meaningOfWord (d : Document) (isKnownThread : Text → Bool) (owner : Option Nat) (name : Text) :
    TokenType × Modifiers :=
  if Vocabulary.isBuiltin name then (.function, .builtin)
  else if d.hasThread name || isKnownThread (lower name) then (.function, .none)
  else if owner.any fun index => (d.findLabel index name).isSome then (.label, .none)
  else (.var, .read)

/-- What a variable is: a parameter of the thread around it, a variable that the script writes, or a
    property of something else. -/
def meaningOfProperty (d : Document) (owner : Option Nat) (qualified : Text) : TokenType :=
  if (owner.bind fun index => d.threads[index]?).any (·.hasParameter qualified) then .parameter
  else if d.bindings.any (·.qualified == qualified) then .var
  else .property

/-- What a lexeme of a document is. -/
def meaning (d : Document) (isKnownThread : Text → Bool) (s : Site) : TokenType × Modifiers :=
  match s.lexeme.kind with
  | .threadName role => (.function, .declaration ∪ .definition ∪ .ofRole role)
  | .threadEnd => (.keyword, .none)
  | .parameter _ => (.parameter, .declaration)
  | .labelDef => (.label, .definition)
  | .property scope write =>
    (meaningOfProperty d s.owner (scope.qualify s.lexeme.text), if write then .write else .read)
  | .word => meaningOfWord d isKnownThread s.owner s.lexeme.text
  | .crossRefName => (.function, .none)
  | .member => (.property, .read)
  | .scopePrefix _ => (.qualifier, .none)
  | .pathRef => (.string, .none)
  | .string => (.string, .none)
  | .keyword => (.keyword, .none)
  | .directive => (.keyword, .none)
  | .number => (.number, .none)
  | .comment => (.comment, .none)
  | .operator => (.operator, .none)
  | .stray => (.operator, .none)

/-- The token of a lexeme with that meaning. -/
def ofLexeme (l : Lexeme) (meaning : TokenType × Modifiers) : Token :=
  ⟨l.line, l.column, l.length, meaning.1, meaning.2⟩

/-- The tokens of a document, one for each lexeme; `isKnownThread` answers for the threads of other
    scripts. -/
def classify (d : Document) (isKnownThread : Text → Bool) : List Token :=
  (Site.ofLexemes 0 none [] d.lexemes).map fun s => ofLexeme s.lexeme (meaning d isKnownThread s)

/-- The tokens of a text by itself. -/
def tokenize (t : Text) : List Token := classify (.read ⟨[]⟩ t) fun _ => false

end Token

end ScriptAtlas
