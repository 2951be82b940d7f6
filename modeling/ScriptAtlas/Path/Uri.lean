import ScriptAtlas.Path.Basic

/-! # File URIs — absolute paths as editors name them

    Every part after the root follows a slash, with the characters that a path
    segment may not hold written as percent and two hexadecimal digits per
    octet of their UTF-8 form.  Relative paths have no URI. -/

namespace ScriptAtlas.Uri

/-- Whether a character stands for itself in a path segment. -/
def isPlain (c : Char) : Bool :=
  0x20 < c.toNat && c.toNat < 0x7F && !"\"#<>?`\x7b\x7d/%\\".toList.contains c

/-- A hexadecimal digit, in upper case. -/
def hexDigit (n : Nat) : Char := Char.ofNat (if n < 10 then 0x30 + n else 0x37 + n)

/-- An octet as percent and two digits. -/
def percent (octet : UInt8) : Text :=
  ['%', hexDigit (octet.toNat / 16), hexDigit (octet.toNat % 16)]

/-- A path segment with its other characters written as percent forms. -/
def encode (segment : Text) : Text :=
  segment.flatMap fun c => if isPlain c then [c] else (String.utf8EncodeChar c).flatMap percent

/-- The URI of an absolute path. -/
def ofPath? (p : Path) : Option Text :=
  match p.parts with
  | [.root] => some "file:///".toList
  | .root :: ps => some ("file://".toList ++ ps.flatMap fun part => '/' :: encode part.text)
  | _ => none

end ScriptAtlas.Uri
