import ScriptAtlas.Text.Basic

/-! # Lines — the two ways a text falls into lines

    Scripts are read row by row, and a row ends at a line feed only (`rows`).
    Editors show more breaks than that: carriage return, the pair of carriage
    return and line feed, vertical tab, form feed, next line, and the line and
    paragraph separators (`displayLines`).  A display line keeps the break that
    ends it, and a text that ends in a break has one more, empty, line. -/

namespace ScriptAtlas.Text

/-- The rows of a text: its parts between line feeds. -/
def rows (t : Text) : List Text := t.splitOn '\n'

/-- The characters that end a display line. -/
def isLineBreak (c : Char) : Bool :=
  let n := c.toNat
  (0x0A ≤ n && n ≤ 0x0D) || n == 0x85 || n == 0x2028 || n == 0x2029

/-- The display lines of a text, each with the break that ends it. -/
def displayLines : Text → List Text
  | [] => [[]]
  | '\r' :: '\n' :: cs => ['\r', '\n'] :: displayLines cs
  | c :: cs =>
    if isLineBreak c then [c] :: displayLines cs
    else (displayLines cs).modifyHead (c :: ·)

/-- A display line as it is shown: carriage returns and line feeds are left out. -/
def shown (line : Text) : Text := line.filter fun c => c != '\n' && c != '\r'

/-- The display line with a number, as it is shown. -/
def displayLine? (t : Text) (number : Nat) : Option Text :=
  (displayLines t)[number]?.map shown

end ScriptAtlas.Text
