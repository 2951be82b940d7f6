import ScriptAtlas.Command.Basic
import ScriptAtlas.Includes.Report
import ScriptAtlas.Problem.Analysis
import ScriptAtlas.Settings.Load
import ScriptAtlas.Text.Quoted
import ScriptAtlas.Workspace.Tokens

/-! # Running commands — reports on a directory of scripts

    A command loads settings, reads the scripts below its root and gives a
    report, or the reason why it cannot.  Settings are loaded before the root
    is looked at. -/

namespace ScriptAtlas

/-- Why a command gives no report. -/
inductive CommandError where
  | settings (cause : SettingsError)
  /-- The scripts below a root cannot be read. -/
  | root (root : Path) (cause : WorkspaceError)
  /-- A file cannot be read. -/
  | file (cause : WorkspaceError)
deriving DecidableEq, Repr

/-- A report, and whether all is well. -/
structure Report where
  ok : Bool
  text : String
deriving DecidableEq, Repr

/-- The reasons of an error in words, each with its own reason after it. -/
def WorkspaceError.reasons (e : WorkspaceError) : List String :=
  match e with
  | .notADirectory _ => [e.message]
  | .read _ cause => [e.message, cause.message]

/-- The error in words, with its reasons. -/
def CommandError.message : CommandError → String
  | settings .malformed => "settings cannot be parsed"
  | settings .illTyped => "a setting has the wrong type"
  | root path cause =>
    ": ".intercalate (("Failed to load workspace at " ++ path.text.asString) :: cause.reasons)
  | file cause => ": ".intercalate cause.reasons

namespace Command

/-- Lines as a text. -/
def unlines (lines : List String) : String := String.join (lines.map (· ++ "\n"))

/-- The settings and the workspace at a root. -/
def openRoot (home disk : Disk) (root : Path) : Except CommandError (Settings × Workspace) := do
  let settings ← (Settings.load home disk root .unsaid).mapError CommandError.settings
  let workspace ← (Workspace.ofDirectory settings disk root).mapError (CommandError.root root)
  return (settings, workspace)

/-- A diagnostic of a script as a line, with line and column counted from one. -/
def diagnosticLine (script : Text) (d : Diagnostic) : String :=
  script.asString ++ ":" ++ toString (d.span.start.line + 1) ++ ":"
    ++ toString (d.span.start.column + 1) ++ ": " ++ d.severity.word ++ "[" ++ d.rule.name ++ "]: "
    ++ d.message

/-- The report on the problems of all scripts; all is well without errors. -/
def checkReport (disk : Disk) (settings : Settings) (w : Workspace) : Report :=
  let w := w.keepIndex
  let found := w.analyzeAll disk settings
  let lines := found.flatMap fun (path, ds) => ds.map (diagnosticLine (w.scriptPath path))
  let diagnostics := found.flatMap (·.2)
  let errors := (diagnostics.filter (·.severity == .error)).length
  let summary := toString w.tracked.length ++ " scripts checked, " ++ toString diagnostics.length
    ++ " problems (" ++ toString errors ++ " errors)"
  ⟨errors == 0, unlines (lines ++ [summary])⟩

/-- The report on the include graph. -/
def graphReport (disk : Disk) (w : Workspace) (json : Bool) : Report :=
  let snapshot := w.snapshot disk
  ⟨true, unlines (if json then [snapshot.json] else snapshot.lines)⟩

/-- The text of a token, as its line is shown. -/
def tokenText (w : Workspace) (file : Path) (t : Token) : Text :=
  match w.displayLine? file t.line with
  | some line => (line.drop t.column).take t.length
  | none => []

/-- A token as a line, with line and column counted from one. -/
def tokenLine (w : Workspace) (file : Path) (t : Token) : String :=
  toString (t.line + 1) ++ ":" ++ toString (t.column + 1) ++ " " ++ t.type.name ++ " ["
    ++ ",".intercalate t.modifiers.names ++ "] "
    ++ (Text.quoted (tokenText w file t)).asString

/-- The root for a file where none is given: its directory. -/
def rootOf (file : Path) : Path :=
  match file.parent? with
  | some parent => if parent.text.isEmpty then .ofString "." else parent
  | none => .ofString "."

/-- The report on the tokens of a file, which is read if it is not tracked. -/
def tokensReport (disk : Disk) (w : Workspace) (file : Path) : Except CommandError Report := do
  let w ← if (w.document? file).isSome then pure w
    else (w.load disk file).mapError CommandError.file
  return ⟨true, unlines (((w.tokenize file).getD []).map (tokenLine w file))⟩

/-- The root whose scripts a command reads. -/
def root : Command → Path
  | check root | graph root _ => root
  | tokens file root => root.getD (rootOf file)

/-- The files that a command names besides its root. -/
def files : Command → List Path
  | check _ | graph _ _ => []
  | tokens file _ => [file]

/-- The report that a command gives on a disk, with a home directory. -/
def run (home disk : Disk) (command : Command) : Except CommandError Report := do
  let (settings, w) ← openRoot home disk command.root
  match command with
  | check _ => return checkReport disk settings w
  | graph _ json => return graphReport disk w json
  | tokens file _ => tokensReport disk w file

end Command

end ScriptAtlas
