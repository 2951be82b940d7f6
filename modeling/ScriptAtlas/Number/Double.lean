/-! # Double-precision numbers

    A finite number is a sign, a significand below `2 ^ 53` and an exponent of
    two from `-1074` on.  A ratio is rounded to the nearest of them, a tie to
    the even significand; products and quotients are rounded exact ones. -/

namespace ScriptAtlas

/-- A number of double precision; a finite one has the magnitude `significand * 2 ^ exponent`. -/
inductive Double where
  | nan
  | infinite (negative : Bool)
  | finite (negative : Bool) (significand : Nat) (exponent : Int)
deriving DecidableEq, Repr

namespace Double

/-- The least exponent. -/
def leastExponent : Int := -1074

/-- The greatest exponent. -/
def greatestExponent : Int := 971

/-- Zero with a sign. -/
def zero (negative : Bool) : Double := finite negative 0 leastExponent

/-- The quotient of `num` by `den * 2 ^ exponent`, rounded to a natural number, ties to even. -/
def roundedQuotient (num den : Nat) (exponent : Int) : Nat :=
  let num := num * Nat.pow 2 (-exponent).toNat
  let den := den * Nat.pow 2 exponent.toNat
  let quotient := num / den
  let twice := 2 * (num % den)
  if den < twice || (twice == den && quotient % 2 == 1) then quotient + 1 else quotient

/-- The exponent at which the quotient of `num` by `den` has 53 binary digits, or the least one. -/
def exponentOf (num den : Nat) : Int :=
  let guess : Int := (num.log2 : Int) - (den.log2 : Int) - 52
  let fits := den * Nat.pow 2 guess.toNat * Nat.pow 2 52 ≤ num * Nat.pow 2 (-guess).toNat
  max leastExponent (if fits then guess else guess - 1)

/-- The number nearest to `num / den`, infinite if that is too large. -/
def ofRatio (negative : Bool) (num den : Nat) : Double :=
  if num == 0 then zero negative
  else
    let exponent := exponentOf num den
    let significand := roundedQuotient num den exponent
    let (significand, exponent) :=
      if significand == Nat.pow 2 53 then (Nat.pow 2 52, exponent + 1) else (significand, exponent)
    if greatestExponent < exponent then infinite negative
    else finite negative significand exponent

/-- The number nearest to a natural number. -/
def ofNat (n : Nat) : Double := ofRatio false n 1

/-- The magnitude of a finite number as a ratio. -/
def ratio (significand : Nat) (exponent : Int) : Nat × Nat :=
  (significand * Nat.pow 2 exponent.toNat, Nat.pow 2 (-exponent).toNat)

/-- The number nearest to the product by a ratio. -/
def scale (x : Double) (num den : Nat) : Double :=
  match x with
  | finite negative significand exponent =>
    let (n, d) := ratio significand exponent
    ofRatio negative (n * num) (d * den)
  | x => x

/-- The ratio of the number nearest to a power of ten, for powers up to `10 ^ 308`. -/
def powerOfTen (n : Nat) : Nat × Nat :=
  match ofNat (Nat.pow 10 n) with
  | finite _ significand exponent => ratio significand exponent
  | _ => (1, 1)

/-- The product by the number nearest to a power of ten. -/
def timesPowerOfTen (x : Double) (n : Nat) : Double :=
  let (num, den) := powerOfTen n
  x.scale num den

/-- The quotient by the number nearest to a power of ten. -/
def overPowerOfTen (x : Double) (n : Nat) : Double :=
  let (num, den) := powerOfTen n
  x.scale den num

/-- The number nearest to `digits * 10 ^ exponent`.  Beyond `10 ^ 400` nothing is finite, and below
    `10 ^ -400` all is zero. -/
def ofDecimal (negative : Bool) (digits : Nat) (exponent : Int) : Double :=
  if digits == 0 then zero negative
  else
    let size := ((Nat.toDigits 10 digits).length : Int) + exponent
    if 400 < size then infinite negative
    else if size < -400 then zero negative
    else ofRatio negative (digits * Nat.pow 10 exponent.toNat) (Nat.pow 10 (-exponent).toNat)

/-- The number with the other sign. -/
def neg : Double → Double
  | nan => nan
  | infinite negative => infinite (!negative)
  | finite negative significand exponent => finite (!negative) significand exponent

/-- Whether the number is zero, of either sign. -/
def isZero : Double → Bool
  | finite _ 0 _ => true
  | _ => false

/-- The greatest natural number of 64 binary digits. -/
def greatestWord : Nat := Nat.pow 2 64 - 1

/-- The natural number nearest to it, a half going up, within 64 binary digits; nothing is below
    zero, and what is no number counts as zero. -/
def toWord : Double → Nat
  | finite false significand exponent =>
    let (num, den) := ratio significand exponent
    min greatestWord ((2 * num + den) / (2 * den))
  | infinite false => greatestWord
  | _ => 0

end Double

end ScriptAtlas
