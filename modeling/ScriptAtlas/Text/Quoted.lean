import ScriptAtlas.Text.Basic
import ScriptAtlas.Text.Printable

/-! # Quoted text — any text on one line, in characters that can be seen

    Quotes and backslashes get a backslash, a few controls have a letter, and
    what cannot be seen is written by its code point in braces. -/

namespace ScriptAtlas.Text

/-- The code point of a character in braces. -/
def codePoint (c : Char) : Text :=
  ['\\', 'u', '\x7b'] ++ Nat.toDigits 16 c.toNat ++ ['\x7d']

/-- A character as it is written between quotes. -/
def escape (c : Char) : Text :=
  if c == '"' then ['\\', '"']
  else if c == '\\' then ['\\', '\\']
  else if c == '\t' then ['\\', 't']
  else if c == '\r' then ['\\', 'r']
  else if c == '\n' then ['\\', 'n']
  else if c == '\x00' then ['\\', '0']
  else if isPrintable c then [c]
  else codePoint c

/-- A text between quotes. -/
def quoted (t : Text) : Text := '"' :: t.flatMap escape ++ ['"']

end ScriptAtlas.Text
