import ScriptAtlas.Text.Basic

/-! # Queries — what a symbol search asks for

    A query is a list of terms between spaces.  A term asks for characters in
    order (fuzzy), for a beginning (`^`), an end (`$`), both, or a stretch (`'`);
    with `!` in front it asks for their absence.  A backslash takes such a sign,
    or a space, as it is.  Letter case counts only in a term with a capital. -/

namespace ScriptAtlas

/-- How a term wants to be found. -/
inductive TermKind where
  | fuzzy
  | substring
  | beginning
  | ending
  | exact
deriving DecidableEq, Repr

/-- A term of a query. -/
structure Term where
  kind : TermKind
  negative : Bool
  ignoreCase : Bool
  needle : Text
deriving DecidableEq, Repr

namespace Term

/-- The parts of a query between spaces that no backslash stands before. -/
def split : (escaped : Bool) → Text → List Text
  | _, [] => [[]]
  | escaped, c :: cs =>
    if c == ' ' && !escaped then [] :: split escaped cs
    else (split (c == '\\') cs).modifyHead (c :: ·)

/-- Whether the term is negative, and the rest of it. -/
def takeSign : Text → Bool × Text
  | '!' :: rest => (true, rest)
  | '\\' :: '!' :: rest => (false, '!' :: rest)
  | t => (false, t)

/-- The kind that the start of a term asks for, and the rest of it. -/
def takeStart : Text → TermKind × Text
  | '^' :: rest => (.beginning, rest)
  | '\'' :: rest => (.substring, rest)
  | '\\' :: '^' :: rest => (.fuzzy, '^' :: rest)
  | '\\' :: '\'' :: rest => (.fuzzy, '\'' :: rest)
  | t => (.fuzzy, t)

/-- The kind once the end of a term is looked at, the term without its end sign, and the dollar sign
    that is to be taken as it is. -/
def takeEnd (kind : TermKind) (t : Text) : TermKind × Text × Text :=
  match t.reverse with
  | '$' :: '\\' :: rest => (kind, rest.reverse, ['$'])
  | '$' :: rest => (if kind == .fuzzy then .ending else .exact, rest.reverse, [])
  | _ => (kind, t, [])

/-- Spaces taken as they are lose the backslash before them. -/
def unescapeSpaces : Text → Text
  | '\\' :: ' ' :: rest => ' ' :: unescapeSpaces rest
  | c :: rest => c :: unescapeSpaces rest
  | [] => []

/-- The term that a part of a query is. -/
def ofText (t : Text) : Term :=
  let (negative, t) := takeSign t
  let (kind, t) := takeStart t
  let (kind, t, dollar) := takeEnd kind t
  let needle := unescapeSpaces t
  { kind := if negative && kind == .fuzzy then .substring else kind
    negative
    ignoreCase := !needle.any Char.isUpper
    needle := needle ++ dollar }

/-- The terms of a query; a term that asks for nothing is left out. -/
def ofQuery (query : Text) : List Term :=
  ((split false query).map ofText).filter (!·.needle.isEmpty)

end Term

end ScriptAtlas
