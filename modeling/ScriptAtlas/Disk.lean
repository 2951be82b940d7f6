import ScriptAtlas.Path.Basic
import ScriptAtlas.Text.Utf8

/-! # Disk — files and directories as a value

    A disk is listed entry by entry, each with the names that lead to it from
    the root.  It also says which directory is the working directory, where
    paths that do not start at the root are read from.  Reading a path walks its
    parts; what can go wrong there is a `DiskError`. -/

namespace ScriptAtlas

/-- Why a path cannot be read. -/
inductive DiskError where
  | notFound
  | notADirectory
  | isADirectory
  /-- A name has more octets than a disk takes. -/
  | nameTooLong
  /-- A path holds the character that ends paths. -/
  | nulInName
deriving DecidableEq, Repr

/-- The error as the operating system words it. -/
def DiskError.message : DiskError → String
  | notFound => "No such file or directory (os error 2)"
  | notADirectory => "Not a directory (os error 20)"
  | isADirectory => "Is a directory (os error 21)"
  | nameTooLong => "File name too long (os error 36)"
  | nulInName => "file name contained an unexpected NUL byte"

/-- What stands on a disk. -/
inductive DiskEntry where
  | file (octets : List UInt8)
  | directory
deriving DecidableEq, Repr

/-- The entries of a disk by the names that lead to them from the root. -/
structure Disk where
  /-- The names that lead to the working directory. -/
  working : List Text
  entries : List (List Text × DiskEntry)
deriving DecidableEq, Repr

namespace Disk

/-- A disk with nothing on it; its root is the working directory. -/
def empty : Disk := ⟨[], []⟩

/-- The entry at a list of names; the root is a directory that is not listed. -/
def entry? (d : Disk) (names : List Text) : Option DiskEntry :=
  if names.isEmpty then some .directory
  else (d.entries.find? fun e => e.1 == names).map (·.2)

/-- Puts an entry at a list of names, in place of what stood there. -/
def put (d : Disk) (names : List Text) (entry : DiskEntry) : Disk :=
  { d with entries := d.entries.filter (fun e => e.1 != names) ++ [(names, entry)] }

/-- Makes a directory at a list of names unless something stands there. -/
def ensureDirectory (d : Disk) (names : List Text) : Disk :=
  if (d.entry? names).isSome then d else d.put names .directory

/-- Writes an entry, with the directories that lead to it. -/
def write (d : Disk) (names : List Text) (entry : DiskEntry) : Disk :=
  let parents := (List.range names.length).map fun n => names.take n
  let ready := parents.foldl ensureDirectory d
  match entry with
  | .directory => ready.ensureDirectory names
  | .file _ => ready.put names entry

/-- A disk with an empty working directory and the directories that lead to it. -/
def startingAt (names : List Text) : Disk := write ⟨names, []⟩ names .directory

/-- The names that a part of a path leads to; the root is its own parent. -/
def step (names : List Text) : Path.Part → List Text
  | .root => []
  | .here => names
  | .up => names.dropLast
  | .name n => names ++ [n]

/-- The names along a path, from where it starts to where it leads, whatever stands there. -/
def way (d : Disk) (p : Path) : List (List Text) := p.parts.scanl step d.working

/-- The names that a path leads to, whatever stands there. -/
def namesAt (d : Disk) (p : Path) : List Text := p.parts.foldl step d.working

/-- The most octets that a name may have. -/
def nameLimit : Nat := 255

/-- The most octets that a path may have. -/
def pathLimit : Nat := 4095

/-- The number of octets of a text. -/
def octetCount (t : Text) : Nat := (Utf8.encode t).length

/-- Whether a part is a name that no disk takes. -/
def isTooLong : Path.Part → Bool
  | .name n => nameLimit < octetCount n
  | _ => false

/-- Walks parts of a path from the entry at `names`; a leading root starts again from there. -/
def walk (d : Disk) (names : List Text) : List Path.Part → Except DiskError (List Text)
  | [] => .ok names
  | .root :: parts => d.walk [] parts
  | part :: parts =>
    match d.entry? names with
    | none => .error .notFound
    | some (.file _) => .error .notADirectory
    | some .directory =>
      if isTooLong part then .error .nameTooLong else d.walk (step names part) parts

/-- Whether the spelling of a path asks for a directory: it ends in a separator, or in `.` after
    one. -/
def asksDirectory (p : Path) : Bool :=
  ['/'].isSuffixOf p.text || ['/', '.'].isSuffixOf p.text

/-- Whether a disk takes a path of that length. -/
def fits (p : Path) : Bool := octetCount p.text ≤ pathLimit

/-- The entry at a path, and the names that lead to it. -/
def find (d : Disk) (p : Path) : Except DiskError (List Text × DiskEntry) :=
  if p.text.contains '\x00' then .error .nulInName
  else if p.text.isEmpty then .error .notFound
  else if !fits p then .error .nameTooLong
  else
    match d.walk d.working p.parts with
    | .error e => .error e
    | .ok names =>
      match d.entry? names with
      | none => .error .notFound
      | some (.file octets) =>
        if asksDirectory p then .error .notADirectory else .ok (names, .file octets)
      | some .directory => .ok (names, .directory)

/-- Whether a file stands at the path. -/
def isFile (d : Disk) (p : Path) : Bool :=
  match d.find p with
  | .ok (_, .file _) => true
  | _ => false

/-- Whether a directory stands at the path. -/
def isDirectory (d : Disk) (p : Path) : Bool :=
  match d.find p with
  | .ok (_, .directory) => true
  | _ => false

/-- The octets of the file at the path. -/
def readOctets (d : Disk) (p : Path) : Except DiskError (List UInt8) :=
  match d.find p with
  | .ok (_, .file octets) => .ok octets
  | .ok (_, .directory) => .error .isADirectory
  | .error e => .error e

/-- The text of the file at the path. -/
def readText (d : Disk) (p : Path) : Except DiskError Text := (d.readOctets p).map Utf8.decode

/-- The names below `base`, if an entry stands below it. -/
def namesBelow? (base names : List Text) : Option (List Text) :=
  if base.isPrefixOf names && base.length < names.length then some (names.drop base.length)
  else none

/-- The scripts below a directory, each as a path below the path given, without those behind a name
    that starts with a dot. -/
def scriptsBelow (d : Disk) (root : Path) : List (Path × Text) :=
  match d.find root with
  | .ok (base, .directory) =>
    d.entries.filterMap fun (names, entry) =>
      match entry, namesBelow? base names with
      | .file octets, some below =>
        let path := below.foldl (fun p n => p.join ⟨n⟩) root
        if below.any (·.head? == some '.') || !path.isScript then none
        else some (path, Utf8.decode octets)
      | _, _ => none
  | _ => []

end Disk

end ScriptAtlas
