import ScriptAtlas.Disk
import ScriptAtlas.Settings.Json
import ScriptAtlas.Settings.Read
import ScriptAtlas.Settings.Toml.Basic

/-! # Loading settings — files laid over defaults

    Settings come from a file in the home directory and from one in the root of
    the workspace, which is laid over the first.  Each may be TOML or JSON, told
    by its extension; a file that is missing says nothing. -/

namespace ScriptAtlas

/-- Why settings cannot be loaded. -/
inductive SettingsError where
  /-- A file breaks its grammar, or is no table. -/
  | malformed
  /-- A value cannot mean what its key asks for. -/
  | illTyped
deriving DecidableEq, Repr

/-- What an editor says on tokens, if it says anything. -/
inductive TokenSupport where
  | unsaid
  | supported
  | unsupported
deriving DecidableEq, Repr

namespace Settings

/-- The settings before any file is read. -/
def defaults : Value :=
  .table [("semantic_tokens".toList, .bool true), ("check_filesystem".toList, .bool true),
    ("max_traversal_depth".toList, .integer 32), ("extra_builtins".toList, .list []),
    ("extra_entry_points".toList, .list [])]

/-- The formats of settings files by extension. -/
def formats : List (String × (Text → Option (List (Text × Value)))) :=
  [("toml", Toml.parse?), ("json", Json.parse?)]

/-- The path of a settings file with an extension. -/
def filePath (name : Text) (extension : String) : Path := ⟨name ++ '.' :: extension.toList⟩

/-- The entries of the settings file with that name, without its extension.  Nothing is read where a
    file of just that name stands, or where the octets are no text. -/
def readFile (disk : Disk) (name : Text) : Except SettingsError (List (Text × Value)) :=
  if disk.isFile ⟨name⟩ then .ok []
  else
    match formats.find? fun (extension, _) => disk.isFile (filePath name extension) with
    | none => .ok []
    | some (extension, parse) =>
      match (disk.readOctets (filePath name extension)).toOption.bind Utf8.decode? with
      | none => .ok []
      | some t =>
        match parse t with
        | some entries => .ok entries
        | none => .error .malformed

/-- The paths that are looked at for the settings file with that name. -/
def filePaths (name : Text) : List Path :=
  ⟨name⟩ :: formats.map fun (extension, _) => filePath name extension

/-- The settings file in a home directory, without its extension. -/
def homeFile : Text := ".config/morpheus/settings".toList

/-- The settings file in a root, without its extension. -/
def rootFile (root : Path) : Text := root.text ++ "/.morpheus".toList

/-- The settings for a workspace at a root.  An editor without tokens overrules the files on that. -/
def load (home disk : Disk) (root : Path) (tokens : TokenSupport) :
    Except SettingsError Settings := do
  let lower ← readFile home homeFile
  let upper ← readFile disk (rootFile root)
  let value := (defaults.layFile lower).layFile upper
  let value := if tokens == .unsupported then
      value.layFile [("semantic_tokens".toList, .bool false)]
    else value
  match value.toSettings? with
  | some settings => return settings
  | none => throw .illTyped

end Settings

end ScriptAtlas
