/-! # Text — characters, case folding, blanks and cuts

    A text is the list of its characters, and every column and length of the
    library counts characters.  Two notions are fixed here for good: names
    agree up to ASCII letter case (`sameName`), and a blank is a character
    with the Unicode property White_Space (`isBlank`).  The cuts (`trim`,
    `dropEndWhile`, `breakOn`, `breakOnLast`) are what the readers of paths,
    keys and settings are built from. -/

namespace ScriptAtlas

/-- A text is the list of its characters. -/
abbrev Text := List Char

namespace Text

/-- The text as a string, for messages. -/
def asString (t : Text) : String := String.ofList t

/-- ASCII letters lowered, every other character kept. -/
def lower (t : Text) : Text := t.map Char.toLower

/-- Two names are the same when they agree up to ASCII letter case. -/
def sameName (a b : Text) : Bool := lower a == lower b

/-- The characters with the property White_Space. -/
def isBlank (c : Char) : Bool :=
  let n := c.toNat
  (0x09 ≤ n && n ≤ 0x0D) || n == 0x20 || n == 0x85 || n == 0xA0 || n == 0x1680
    || (0x2000 ≤ n && n ≤ 0x200A) || n == 0x2028 || n == 0x2029 || n == 0x202F
    || n == 0x205F || n == 0x3000

/-- The text without its longest ending in `p`. -/
def dropEndWhile (p : Char → Bool) (t : Text) : Text := (t.reverse.dropWhile p).reverse

/-- The text without the blanks at its end. -/
def trimEnd (t : Text) : Text := dropEndWhile isBlank t

/-- The text without the blanks at both ends. -/
def trim (t : Text) : Text := trimEnd (t.dropWhile isBlank)

/-- The text without the double quotes at both ends. -/
def trimQuotes (t : Text) : Text := dropEndWhile (· == '"') (t.dropWhile (· == '"'))

/-- Whether `needle` stands somewhere in the text. -/
def occursIn (needle : Text) : Text → Bool
  | [] => needle.isEmpty
  | c :: cs => needle.isPrefixOf (c :: cs) || occursIn needle cs

/-- The parts before and after the first `mark`, if there is one. -/
def breakOn (mark : Text) : Text → Option (Text × Text)
  | [] => if mark.isEmpty then some ([], []) else none
  | c :: cs =>
    if mark.isPrefixOf (c :: cs) then some ([], (c :: cs).drop mark.length)
    else (breakOn mark cs).map fun (before, after) => (c :: before, after)

/-- The parts before and after the last `mark`, if there is one. -/
def breakOnLast (mark : Text) : Text → Option (Text × Text)
  | [] => if mark.isEmpty then some ([], []) else none
  | c :: cs =>
    match breakOnLast mark cs with
    | some (before, after) => some (c :: before, after)
    | none => if mark.isPrefixOf (c :: cs) then some ([], (c :: cs).drop mark.length) else none

end Text

end ScriptAtlas
