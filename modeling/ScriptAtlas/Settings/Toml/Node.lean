import ScriptAtlas.Settings.Toml.Moment

/-! # TOML, the tree — how keys and headers make tables

    A table comes from braces, from a header of its own, from the header of a
    table below it, or from a key with points.  A table from braces or with a
    header of its own is complete: keys with points cannot add to it and no
    second header can name it.  A header that names a list of tables adds a
    table to it.

    In the end the tree becomes a settings value.  A table whose first key is
    reserved for moments is the moment that it gives as a text. -/

namespace ScriptAtlas.Toml

/-- Where a table comes from: braces, its own header, a header below it, or a key with points. -/
inductive Origin where
  | braces
  | header
  | implied
  | dotted
deriving DecidableEq, Repr

/-- Whether a key with points may add to a table. -/
def Origin.isOpen : Origin → Bool
  | implied | dotted => true
  | braces | header => false

/-- What stands at a key while a file is read. -/
inductive Node where
  | scalar (v : Value)
  | moment (t : Text)
  | list (items : List Node)
  | table (origin : Origin) (entries : List (Text × Node))
  /-- Tables under headers of a list, the last one still open. -/
  | tables (rows : List (List (Text × Node)))
deriving Repr

/-- What stands at the keys of a table. -/
abbrev Entries := List (Text × Node)

namespace Entries

/-- What stands at a key. -/
def get? (entries : Entries) (key : Text) : Option Node :=
  (entries.find? fun e => e.1 == key).map (·.2)

/-- Puts something at a key, in place of what was there. -/
def put (entries : Entries) (key : Text) (node : Node) : Entries :=
  if (entries.get? key).isSome then
    entries.map fun e => if e.1 == key then (key, node) else e
  else entries ++ [(key, node)]

/-- Leaves out a key. -/
def erase (entries : Entries) (key : Text) : Entries := entries.filter fun e => e.1 != key

/-- Changes the table at the end of a way; tables that are missing on it are made.  In a list of
    tables the way goes on in the last one. -/
def alter (made : Origin) (change : Origin → Entries → Option Entries) :
    (way : List Text) → Origin → Entries → Option Entries
  | [], origin, entries => change origin entries
  | key :: way, _, entries =>
    match entries.get? key with
    | none => (alter made change way made []).map fun inner => entries.put key (.table made inner)
    | some (.tables rows) =>
      match rows.getLast? with
      | none => none
      | some row =>
        (alter made change way .header row).map fun inner =>
          entries.put key (.tables (rows.dropLast ++ [inner]))
    | some (.table origin inner) =>
      if origin == .braces || (made == .dotted && !origin.isOpen) then none
      else (alter made change way origin inner).map fun inner => entries.put key (.table origin inner)
    | some _ => none

/-- Sets a key of a table, which has to be free. -/
def insertNew (key : Text) (node : Node) (entries : Entries) : Option Entries :=
  if (entries.get? key).isSome then none else some (entries.put key node)

/-- Sets a key with points: all parts but the last lead to a table that such keys have made. -/
def insert (entries : Entries) (key : List Text) (node : Node) : Option Entries :=
  match key.getLast? with
  | none => none
  | some last =>
    let way := key.dropLast
    alter .dotted (fun origin inner =>
      if way.isEmpty || origin == .dotted then insertNew last node inner else none) way .header entries

/-- Changes the table that a header's own key stands in. -/
def alterAbove (entries : Entries) (header : List Text)
    (change : Text → Entries → Option Entries) : Option Entries :=
  match header.getLast? with
  | none => none
  | some last => alter .implied (fun _ inner => change last inner) header.dropLast .header entries

/-- The table at the end of a way, in a list of tables the last one. -/
def tableAt? (entries : Entries) (way : List Text) : Option Entries :=
  way.foldlM (fun entries key =>
    match Entries.get? entries key with
    | some (.table _ inner) => some inner
    | some (.tables rows) => rows.getLast?
    | _ => none) entries

end Entries

/-- The key that is reserved for moments. -/
def momentKey : Text := "$__toml_private_datetime".toList

/-- The moment that a node gives as a text. -/
def Node.givenMoment? : Node → Option Value
  | .scalar (.text t) => (momentOfText? t).map .text
  | _ => none

mutual

/-- The value that a node has become. -/
def Node.toValue? : Node → Option Value
  | .scalar v => some v
  | .moment t => some (.text t)
  | .list items => (itemsToValues? items).map .list
  | .table _ entries => tableToValue? entries
  | .tables rows => (rowsToValues? rows).map .list

/-- The values that the items of a list have become. -/
def itemsToValues? : List Node → Option (List Value)
  | [] => some []
  | item :: rest => do return (← item.toValue?) :: (← itemsToValues? rest)

/-- The value that a table has become. -/
def tableToValue? : List (Text × Node) → Option Value
  | [] => some (.table [])
  | (key, node) :: rest =>
    if key == momentKey then node.givenMoment?
    else do return .table ((key, ← node.toValue?) :: (← entriesToValues? rest))

/-- The values that further entries of a table have become. -/
def entriesToValues? : List (Text × Node) → Option (List (Text × Value))
  | [] => some []
  | (key, node) :: rest => do return (key, ← node.toValue?) :: (← entriesToValues? rest)

/-- The values that tables under headers of a list have become. -/
def rowsToValues? : List (List (Text × Node)) → Option (List Value)
  | [] => some []
  | row :: rest => do return (← tableToValue? row) :: (← rowsToValues? rest)

end

end ScriptAtlas.Toml
