import ScriptAtlas.Vocabulary

/-! # Symbols — how names are looked up

    The bare names of threads and labels agree in any letter case, so they are
    kept in lower case.  Variables are looked up by scope and exact name. -/

namespace ScriptAtlas

open Text

/-- What two occurrences share when they mean the same name. -/
inductive Symbol where
  /-- A bare name, in lower case. -/
  | bare (name : Text)
  /-- A variable with its scope in front. -/
  | qualified (name : Text)
deriving DecidableEq, Repr

namespace Symbol

/-- The symbol of a thread or label. -/
def ofName (name : Text) : Symbol := bare (lower name)

/-- The symbol of a variable. -/
def ofVariable (scope : Scope) (name : Text) : Symbol := qualified (scope.qualify name)

/-- The symbol that a written name stands for: a scope word, a dot and a rest make a variable, all
    else is a bare name. -/
def ofText (t : Text) : Symbol :=
  match breakOn ['.'] t with
  | some (word, rest) =>
    match Scope.ofWord? word with
    | some scope => if rest.isEmpty then ofName t else ofVariable scope rest
    | none => ofName t
  | none => ofName t

/-- The text the symbol is looked up by. -/
def text : Symbol → Text
  | bare n => n
  | qualified q => q

/-- Bare names come before variables; each kind goes by code points. -/
def key : Symbol → List Nat
  | bare n => 0 :: n.map Char.toNat
  | qualified q => 1 :: q.map Char.toNat

/-- The order of symbols. -/
def order : Symbol → Symbol → Ordering := compareOn key

end Symbol

end ScriptAtlas
