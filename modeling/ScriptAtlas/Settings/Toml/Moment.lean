import ScriptAtlas.Settings.Toml.Lexical

/-! # TOML, dates and times

    A moment is a date, a time of day, or both with an offset perhaps.  Settings
    take it as text, in one spelling for each moment: a `T` between date and
    time, no zeros at the end of a fraction. -/

namespace ScriptAtlas.Toml

open Reader

/-- Reads so many digits, for a number from `least` to `greatest`. -/
def readField (digits least greatest : Nat) : Reader Nat := do
  let n := Text.numeral 10 (← times (satisfy Char.isDigit) digits)
  if least ≤ n && n ≤ greatest then return n else failure

/-- The digits of a number, with zeros before them up to a width. -/
def padded (width n : Nat) : Text :=
  let digits := Nat.toDigits 10 n
  List.replicate (width - digits.length) '0' ++ digits

/-- The number of days in a month. -/
def daysIn (year month : Nat) : Nat :=
  let leap := year % 4 == 0 && (year % 100 != 0 || year % 400 == 0)
  if month == 2 then (if leap then 29 else 28)
  else if month == 4 || month == 6 || month == 9 || month == 11 then 30
  else 31

/-- Reads a date. -/
def readDate : Reader Text := do
  let year ← readField 4 0 9999
  char '-'
  let month ← readField 2 1 12
  char '-'
  let day ← readField 2 1 (daysIn year month)
  return padded 4 year ++ '-' :: padded 2 month ++ '-' :: padded 2 day

/-- Reads a fraction of a second, of which nine digits count. -/
def readFraction : Reader Text := do
  char '.'
  let digits := Text.dropEndWhile (· == '0') ((← takeSome Char.isDigit).take 9)
  return if digits.isEmpty then [] else '.' :: digits

/-- Reads a time of day. -/
def readTime : Reader Text := do
  let hour ← readField 2 0 23
  char ':'
  let minute ← readField 2 0 59
  char ':'
  let second ← readField 2 0 60
  let fraction := (← optionally readFraction).getD []
  return padded 2 hour ++ ':' :: padded 2 minute ++ ':' :: padded 2 second ++ fraction

/-- Reads an offset. -/
def readOffset : Reader Text :=
  (do let _ ← satisfy fun c => c == 'Z' || c == 'z'
      return ['Z'])
  <|> do
    let sign ← satisfy fun c => c == '+' || c == '-'
    let hour ← readField 2 0 23
    char ':'
    let minute ← readField 2 0 59
    let sign := if hour == 0 && minute == 0 then '+' else sign
    return sign :: padded 2 hour ++ ':' :: padded 2 minute

/-- Reads a time after a date. -/
def readTimeAfter : Reader Text := do
  let _ ← satisfy fun c => c == 'T' || c == 't' || c == ' '
  let time ← readTime
  return 'T' :: time ++ (← optionally readOffset).getD []

/-- Reads a moment. -/
def readMoment : Reader Text :=
  (do return (← readDate) ++ (← optionally readTimeAfter).getD []) <|> readTime

/-- The moment that a text gives. -/
def momentOfText? (t : Text) : Option Text := Reader.whole? readMoment t

end ScriptAtlas.Toml
