import ScriptAtlas.Number.Double
import ScriptAtlas.Text.Basic

/-! # Shortest decimals — the fewest digits that read back

    The numbers that round to a double fill an interval around it.  For one
    digit, two digits and so on, the two neighbours of the double on that
    decimal grid are tried; the first that falls into the interval is its text,
    the nearer of two. -/

namespace ScriptAtlas.Double

/-- A positive decimal: `digits * 10 ^ exponent`. -/
structure Decimal where
  digits : Nat
  exponent : Int
deriving DecidableEq, Repr

/-- The numbers that round to a double, in quarters of the last place: `value / unit` with what lies
    `below` and `above` it, the ends included for an even significand. -/
structure Interval where
  value : Nat
  below : Nat
  above : Nat
  unit : Nat
  closed : Bool
deriving DecidableEq, Repr

/-- The interval of a positive finite number.  Below a power of two the numbers lie closer. -/
def interval (significand : Nat) (exponent : Int) : Interval :=
  let up := Nat.pow 2 exponent.toNat
  { value := 4 * significand * up
    below := (if significand == Nat.pow 2 52 && leastExponent < exponent then 1 else 2) * up
    above := 2 * up
    unit := 4 * Nat.pow 2 (-exponent).toNat
    closed := significand % 2 == 0 }

/-- Whether `n * 10 ^ exponent` lies in the interval. -/
def Interval.holds (i : Interval) (n : Nat) (exponent : Int) : Bool :=
  let point := n * Nat.pow 10 exponent.toNat * i.unit
  let shift := Nat.pow 10 (-exponent).toNat
  let low := (i.value - i.below) * shift
  let high := (i.value + i.above) * shift
  if i.closed then low ≤ point && point ≤ high else low < point && point < high

/-- The shorter of the neighbours on the grid of `10 ^ exponent` that lies in the interval, the nearer
    of two, the greater of two as near. -/
def Interval.onGrid? (i : Interval) (exponent : Int) : Option Decimal :=
  let num := i.value * Nat.pow 10 (-exponent).toNat
  let den := i.unit * Nat.pow 10 exponent.toNat
  let down := num / den
  let up := down + 1
  let nearUp := den ≤ 2 * (num % den)
  let first := if nearUp then up else down
  let second := if nearUp then down else up
  if i.holds first exponent then some ⟨first, exponent⟩
  else if i.holds second exponent then some ⟨second, exponent⟩
  else none

/-- The first grid with a hit, from a coarse one on. -/
def Interval.search (i : Interval) (exponent : Int) : (tries : Nat) → Decimal
  | 0 => ⟨0, 0⟩
  | tries + 1 =>
    match i.onGrid? exponent with
    | some d => if d.digits == 0 then i.search (exponent - 1) tries else d
    | none => i.search (exponent - 1) tries

/-- An exponent of ten above the number: two binary digits and a half at least make a decimal one. -/
def exponentAbove (significand : Nat) (exponent : Int) : Int :=
  let binary : Int := (significand.log2 : Int) + exponent
  binary * 30103 / 100000 + 2

/-- The shortest decimal of a positive finite number.  Twenty grids below the number's size always
    hold one with seventeen digits. -/
def shortest (significand : Nat) (exponent : Int) : Decimal :=
  (interval significand exponent).search (exponentAbove significand exponent) 24

/-- The digits of a natural number. -/
def digitsOf (n : Nat) : Text := Nat.toDigits 10 n

/-- A decimal without exponent, and without a point if it is whole. -/
def Decimal.positional (d : Decimal) : Text :=
  let digits := digitsOf d.digits
  let places := (-d.exponent).toNat
  if places == 0 then digits ++ List.replicate d.exponent.toNat '0'
  else
    let padded := List.replicate (places + 1 - digits.length) '0' ++ digits
    let whole := padded.take (padded.length - places)
    whole ++ '.' :: padded.drop (padded.length - places)

/-- The text of a number. -/
def text : Double → Text
  | nan => "NaN".toList
  | infinite negative => if negative then "-inf".toList else "inf".toList
  | finite negative significand exponent =>
    let digits := if significand == 0 then ['0'] else (shortest significand exponent).positional
    if negative then '-' :: digits else digits

end ScriptAtlas.Double
