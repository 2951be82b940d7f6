import ScriptAtlas.Workspace.Basic

/-! # Workspace tokens — tokens with all tracked scripts in view

    Threads of every tracked script are known, and a definition or write that
    nothing in the workspace refers to is marked as unused. -/

namespace ScriptAtlas.Workspace

open Text

/-- The name by which a token is looked up to see whether it is used: the engine runs its entry
    points and callbacks, so they have none, and neither does anything but a definition or write. -/
def usedName? (t : Token) (l : Lexeme) : Option Text :=
  if (t.modifiers.contains .definition || t.modifiers.contains .write)
      && !t.modifiers.contains .entryPoint && !t.modifiers.contains .engineCallback then
    match t.type, l.kind with
    | .function, _ => some l.text
    | .label, _ => some l.text
    | .var, .property scope _ => some (scope.qualify l.text)
    | _, _ => none
  else none

/-- The token, marked as unused if nothing refers to its name. -/
def markUnused (index : SymbolIndex) (t : Token) (l : Lexeme) : Token :=
  match usedName? t l with
  | some name =>
    if index.referenceCount name false == 0 then { t with modifiers := t.modifiers ∪ .unused }
    else t
  | none => t

/-- The tokens of a tracked script. -/
def tokenize (w : Workspace) (path : Path) : Option (List Token) :=
  (w.document? path).map fun d =>
    let index := w.symbolIndex
    List.zipWith (markUnused index) (Token.classify d index.isThread) d.lexemes

end ScriptAtlas.Workspace
