import ScriptAtlas.Command.Run

/-! # The program — commands on the machine's disk

    What a command looks at is read from the machine: the tree below its root,
    the files that it and its scripts name, and the settings in the home
    directory.  The command runs on that, and its report is printed.  The exit
    code is 0 if all is well, 1 if the check found errors, and 2 if there is no
    report. -/

namespace ScriptAtlas

/-- The place on the machine that names lead to from the root. -/
def machinePath (names : List Text) : String :=
  "/" ++ "/".intercalate (names.map (·.asString))

/-- What stands on the machine at the names, links followed; nothing if it cannot be read. -/
def entryAt? (names : List Text) : IO (Option DiskEntry) := do
  let path := (← IO.currentDir) / machinePath names
  match ← path.metadata.toBaseIO with
  | .error _ => return none
  | .ok data =>
    match data.type with
    | .dir => return some .directory
    | .file =>
      let octets ← (IO.FS.readBinFile path).toBaseIO
      return octets.toOption.map fun o => .file o.toList
    | _ => return none

/-- The disk with what the machine has along a path. -/
def readWay (disk : Disk) (p : Path) : IO Disk :=
  (disk.way p).foldlM (fun disk names => do
    match ← entryAt? names with
    | some entry => return disk.write names entry
    | none => return disk) disk

/-- The entries at and below an entry of a directory; links are not followed. -/
partial def readTree (names : List Text) (entry : IO.FS.DirEntry) :
    IO (List (List Text × DiskEntry)) := do
  let here := names ++ [entry.fileName.toList]
  match (← entry.path.symlinkMetadata).type with
  | .dir =>
    let below ← (← entry.path.readDir).toList.mapM (readTree here)
    return (here, .directory) :: below.flatten
  | .file => return [(here, .file (← IO.FS.readBinFile entry.path).toList)]
  | _ => return []

/-- The disk with the tree that the machine has below a directory. -/
def readBelow (disk : Disk) (root : Path) : IO Disk := do
  match disk.find root with
  | .ok (names, .directory) =>
    let path := (← IO.currentDir) / machinePath names
    let tree ← (← path.readDir).toList.mapM (readTree names)
    return { disk with entries := tree.flatten ++ disk.entries }
  | _ => return disk

/-- A disk with nothing but the way to the working directory. -/
def bareDisk : IO Disk := do
  let working := Path.ofString (← IO.currentDir).toString
  return .startingAt (Disk.empty.namesAt working)

/-- What a command may look at: its root, the files that it names, and those that includes may
    name. -/
def commandDisk (command : Command) : IO Disk := do
  let named := Settings.filePaths (Settings.rootFile command.root) ++ command.files
  let disk ← (command.root :: named).foldlM readWay (← bareDisk)
  let disk ← readBelow disk command.root
  match Workspace.ofDirectory .default disk command.root with
  | .ok w => w.candidates.foldlM readWay disk
  | .error _ => return disk

/-- The settings files in the home directory, which is the working directory of this disk. -/
def homeDisk : IO Disk := do
  match ← IO.getEnv "HOME" with
  | none => return .empty
  | some home =>
    let disk := Disk.startingAt ((← bareDisk).namesAt (.ofString home))
    (Settings.filePaths Settings.homeFile).foldlM readWay disk

/-- What the program says on arguments that are no command. -/
def UsageError.message : UsageError → String
  | nothingAsked | helpAsked =>
    "usage: morpheus check DIR | graph DIR [--json] | tokens FILE [--root DIR]"
  | versionAsked => "morpheus 0.1.0"
  | unknownCommand => "unknown command"
  | unknownArgument => "unexpected argument"
  | needlessValue => "a flag takes no value"
  | missingValue => "a value is required"
  | repeatedOption => "an option can be used only once"
  | missingPath => "a path is required"

/-- Runs a command and prints its report. -/
def runAndPrint (command : Command) : IO UInt32 := do
  match command.run (← homeDisk) (← commandDisk command) with
  | .ok report =>
    IO.print report.text
    return if report.ok then 0 else 1
  | .error e =>
    IO.eprintln ("error: " ++ e.message)
    return 2

end ScriptAtlas

open ScriptAtlas in
/-- Runs the command that the arguments ask for. -/
def main (args : List String) : IO UInt32 := do
  match Command.ofArguments (args.map String.toList) with
  | .ok command => runAndPrint command
  | .error e =>
    if e == .helpAsked || e == .versionAsked then
      IO.println e.message
      return 0
    else
      IO.eprintln ("error: " ++ e.message)
      return 2
