import ScriptAtlas.Path.Basic

/-! # Script paths — how scripts name each other

    A script path is written from the workspace root, in lower case and with
    forward slashes, without `.` and `..`.  `ScriptPath.normalize` brings any
    spelling into that form.  A `Catalog` knows the script path of every
    tracked file and resolves what an include says: first as a path from the
    root, then from the directory of the including file. -/

namespace ScriptAtlas

open Text

namespace ScriptPath

/-- A raw path without the blanks and then the quotes around it. -/
def unquote (raw : Text) : Text := trimQuotes (trim raw)

/-- Backslashes turned into slashes. -/
def unifySeparators (t : Text) : Text := t.map fun c => if c == '\\' then '/' else c

/-- One more segment on a stack of segments, the latest first: trivial ones change nothing, `..`
    takes the latest away. -/
def push (stack : List Text) (segment : Text) : List Text :=
  if Path.isTrivial segment then stack
  else if segment == ['.', '.'] then stack.tail
  else segment :: stack

/-- The segments of a raw path, in lower case and with `.` and `..` worked in. -/
def segments (raw : Text) : List Text :=
  (((lower (unifySeparators (unquote raw))).splitOn '/').foldl push []).reverse

/-- The one spelling of a script path. -/
def normalize (raw : Text) : Text := ['/'].intercalate (segments raw)

/-- The script path of a file, relative to the root.  It is missing when both are absolute and the
    root leaves the common part through `..`. -/
def ofPath? (root file : Path) : Option Text :=
  if file.isAbsolute && root.isAbsolute then
    (Path.partsFrom? root.parts file.parts).map fun ps => normalize (Path.render ps)
  else
    match Path.partsAfter? root.parts file.parts with
    | some ps => some (normalize (Path.render ps))
    | none => some (normalize file.text)

end ScriptPath

/-- The tracked files by script path. -/
structure Catalog where
  root : Path
  files : List (Text × Path)
deriving DecidableEq, Repr

namespace Catalog

/-- The catalog of a list of files. -/
def ofFiles (root : Path) (files : List Path) : Catalog :=
  ⟨root, files.filterMap fun f => (ScriptPath.ofPath? root f).map fun s => (s, f)⟩

/-- The file with that script path; the last one listed if there are several. -/
def find? (c : Catalog) (script : Text) : Option Path :=
  (c.files.findRev? fun entry => entry.1 == script).map (·.2)

/-- The path that a raw path names from the directory of `file`. -/
def besides? (file : Path) (raw : Text) : Option Path :=
  file.parent?.map fun dir => dir.join ⟨ScriptPath.unquote raw⟩

/-- The tracked file that a raw path names: from the root, or else from the directory of the file
    that names it. -/
def resolve (c : Catalog) (raw : Text) (file : Option Path) : Option Path :=
  match c.find? (ScriptPath.normalize raw) with
  | some target => some target
  | none =>
    (file.bind fun f => besides? f raw).bind fun joined =>
      (ScriptPath.ofPath? c.root joined).bind c.find?

/-- The script path of a file, or its own text if it has none. -/
def scriptPath (c : Catalog) (file : Path) : Text :=
  (ScriptPath.ofPath? c.root file).getD file.text

end Catalog

end ScriptAtlas
