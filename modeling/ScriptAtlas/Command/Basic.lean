import ScriptAtlas.Path.Basic

/-! # Commands — what the arguments of the program ask for

    The arguments name a command and give its path and options.  They are taken
    from left to right, and the first that is at fault decides.  The value of
    an option or path is only looked at when the next one is taken up, or at the
    end; so a fault of a later argument may come first. -/

namespace ScriptAtlas

/-- What the program can be asked to do. -/
inductive Command where
  /-- Report the problems of all scripts below a root. -/
  | check (root : Path)
  /-- Report the include graph of the scripts below a root. -/
  | graph (root : Path) (json : Bool)
  /-- Report the tokens of a file, with the scripts below a root in view. -/
  | tokens (file : Path) (root : Option Path)
deriving DecidableEq, Repr

/-- Why arguments are not a command. -/
inductive UsageError where
  /-- Nothing was asked for, so help is due. -/
  | nothingAsked
  | helpAsked
  | versionAsked
  | unknownCommand
  | unknownArgument
  /-- A flag was given a value. -/
  | needlessValue
  /-- A value is missing or empty. -/
  | missingValue
  | repeatedOption
  | missingPath
deriving DecidableEq, Repr

/-- The names of the commands. -/
inductive CommandName where
  | check
  | graph
  | tokens
deriving DecidableEq, Repr

namespace CommandName

/-- The commands by their words. -/
def named : List (String × CommandName) := [("check", check), ("graph", graph), ("tokens", tokens)]

/-- The command with that word. -/
def ofWord? (word : Text) : Option CommandName :=
  (named.find? fun entry => entry.1.toList == word).map (·.2)

end CommandName

namespace Command

/-- What an argument looks like. -/
inductive Shape where
  /-- Two dashes: what follows is no option. -/
  | dashes
  /-- An option by its word, with the value after an equals sign. -/
  | long (word : Text) (value : Option Text)
  /-- An option by its first letter. -/
  | short (letter : Char)
  | plain
deriving DecidableEq, Repr

/-- The shape of an argument; a single dash is a plain one. -/
def shape : Text → Shape
  | ['-', '-'] => .dashes
  | '-' :: '-' :: rest =>
    match Text.breakOn ['='] rest with
    | some (word, value) => .long word (some value)
    | none => .long rest none
  | '-' :: letter :: _ => .short letter
  | _ => .plain

/-- What has been given and not been looked at yet: a path, or the option for a root with its value. -/
inductive Pending where
  | path (value : Text)
  | root (value : Option Text)
deriving DecidableEq, Repr

/-- What the arguments of a command have said so far. -/
structure Given where
  path : Option Text
  json : Bool
  root : Option Text
  pending : Option Pending
  /-- The next plain argument is the value of the option for a root. -/
  awaitsRoot : Bool
  /-- All that follows is no option. -/
  plainOnly : Bool
deriving DecidableEq, Repr

namespace Given

/-- Nothing said. -/
def nothing : Given := ⟨none, false, none, none, false, false⟩

/-- Looks at what has not been looked at: a value has to be there, an option may be given once, and
    no value is empty. -/
def settle (g : Given) : Except UsageError Given :=
  match g.pending with
  | none => .ok g
  | some (.path value) =>
    if value.isEmpty then .error .missingValue
    else .ok { g with path := some value, pending := none }
  | some (.root none) => .error .missingValue
  | some (.root (some value)) =>
    if g.root.isSome then .error .repeatedOption
    else if value.isEmpty then .error .missingValue
    else .ok { g with root := some value, pending := none, awaitsRoot := false }

/-- Takes up a flag for JSON. -/
def takeJson (g : Given) : Except UsageError Given := do
  let g ← g.settle
  if g.json then throw .repeatedOption
  return { g with json := true, awaitsRoot := false }

/-- Takes up an option for a root, with its value or to wait for it. -/
def takeRoot (g : Given) (value : Option Text) : Except UsageError Given := do
  let g ← g.settle
  let g := { g with pending := some (.root value), awaitsRoot := value.isNone }
  if value.isSome then g.settle else return g

/-- Takes up a plain argument: the value that is waited for, or else the path. -/
def takePlain (g : Given) (arg : Text) : Except UsageError Given :=
  if g.awaitsRoot && !g.plainOnly then
    .ok { g with pending := some (.root (some arg)), awaitsRoot := false }
  else
    let hasPath := match g.pending with
      | some (.path _) => true
      | _ => g.path.isSome
    if hasPath then .error .unknownArgument
    else g.settle.map fun g => { g with pending := some (.path arg), awaitsRoot := false }

/-- Takes up an option by its word. -/
def takeLong (g : Given) (name : CommandName) (word : Text) (value : Option Text) :
    Except UsageError Given :=
  if word == "help".toList then
    if value.isSome then .error .needlessValue
    else g.settle.bind fun _ => .error .helpAsked
  else if word == "json".toList && name == .graph then
    if value.isSome then .error .needlessValue else g.takeJson
  else if word == "root".toList && name == .tokens then g.takeRoot value
  else .error .unknownArgument

/-- Takes up an argument of a command. -/
def take (name : CommandName) (g : Given) (arg : Text) : Except UsageError Given :=
  if g.plainOnly then g.takePlain arg
  else
    match shape arg with
    | .dashes => .ok { g with plainOnly := true }
    | .long word value => g.takeLong name word value
    | .short letter =>
      if letter == 'h' then g.settle.bind fun _ => .error .helpAsked else .error .unknownArgument
    | .plain => g.takePlain arg

/-- The command that has been given. -/
def finish (name : CommandName) (g : Given) : Except UsageError Command := do
  let g ← g.settle
  match g.path with
  | none => throw .missingPath
  | some path =>
    return match name with
    | .check => .check ⟨path⟩
    | .graph => .graph ⟨path⟩ g.json
    | .tokens => .tokens ⟨path⟩ (g.root.map Path.mk)

end Given

/-- The word that asks for help as a command does. -/
def helpWord : Text := "help".toList

/-- What asking for help on some words comes to. -/
def help : List Text → UsageError
  | [] => .helpAsked
  | [word] => if word == helpWord || (CommandName.ofWord? word).isSome then .helpAsked
    else .unknownCommand
  | _ => .unknownCommand

/-- What a first argument comes to that follows two dashes: no command can stand there. -/
def afterDashes : List Text → UsageError
  | [] => .nothingAsked
  | word :: _ =>
    if word == helpWord || (CommandName.ofWord? word).isSome then .unknownArgument
    else .unknownCommand

/-- The command that arguments ask for. -/
def ofArguments : List Text → Except UsageError Command
  | [] => .error .nothingAsked
  | arg :: rest =>
    match shape arg with
    | .dashes => .error (afterDashes rest)
    | .long word value =>
      if word == helpWord then .error (if value.isSome then .needlessValue else .helpAsked)
      else if word == "version".toList then
        .error (if value.isSome then .needlessValue else .versionAsked)
      else .error .unknownArgument
    | .short letter =>
      .error (if letter == 'h' then .helpAsked else if letter == 'V' then .versionAsked
        else .unknownArgument)
    | .plain =>
      if arg == helpWord then .error (help rest)
      else
        match CommandName.ofWord? arg with
        | none => .error .unknownCommand
        | some name => (rest.foldlM (Given.take name) .nothing).bind (Given.finish name)

end Command

end ScriptAtlas
