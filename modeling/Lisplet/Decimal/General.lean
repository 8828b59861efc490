import Lisplet.Double.Arithmetic

/-!
# General notation

A double is written with at most fifteen significant digits: the exact value is rounded
to fifteen, a half going to the even digit, and zeros at the end are dropped.  Exponents
from `-4` to `14` are written with a point where needed, all others with an exponent of
at least two digits.
-/

namespace Lisplet

namespace Decimal

def digits (n : Nat) : List Char := Nat.toDigits 10 n

def precision : Nat := 15

/-- How many times a positive number of units has to be multiplied by ten to reach one;
`most` bounds the number of times. -/
def stepsToOne (most units : Nat) : Nat :=
  match most with
  | 0 => 0
  | most + 1 => if Double.unitsOfOne ≤ units then 0 else stepsToOne most (units * 10) + 1

/-- The exponent of the leading decimal digit of a positive number of units.  A single
unit is more than `10 ^ (-324)`. -/
def leadingExponent (units : Nat) : Int :=
  if Double.unitsOfOne ≤ units then ((digits (units / Double.unitsOfOne)).length : Int) - 1
  else -(stepsToOne 324 units : Int)

/-- The first `precision` digits of a number of units whose leading digit has this
exponent, rounded. -/
def roundedDigits (units : Nat) (exponent : Int) : Nat :=
  let shift := (precision : Int) - 1 - exponent
  if 0 ≤ shift then roundHalfEven (units * Nat.pow 10 shift.toNat) Double.unitsOfOne
  else roundHalfEven units (Double.unitsOfOne * Nat.pow 10 shift.natAbs)

/-- The significant digits of a positive number of units and the exponent of the first
one.  Nines that round up to the next power of ten move the exponent. -/
def significant (units : Nat) : List Char × Int :=
  let exponent := leadingExponent units
  let rounded := roundedDigits units exponent
  if rounded < Nat.pow 10 precision then (digits rounded, exponent)
  else (digits (rounded / 10), exponent + 1)

def dropTrailingZeros (cs : List Char) : List Char :=
  (cs.reverse.dropWhile (· == '0')).reverse

/-- Whole and fractional digits with a point between them; no point before an empty
fraction. -/
def withPoint (whole fraction : List Char) : List Char :=
  if fraction.isEmpty then whole else whole ++ '.' :: fraction

/-- Digits written with the point where it belongs. -/
def fixed (significant : List Char) (exponent : Int) : List Char :=
  if 0 ≤ exponent then
    let whole := exponent.toNat + 1
    withPoint (significant.take whole) (dropTrailingZeros (significant.drop whole))
  else
    withPoint ['0']
      (dropTrailingZeros (List.replicate (exponent.natAbs - 1) '0' ++ significant))

/-- Digits written with the point after the first one and an exponent. -/
def scientific (significant : List Char) (exponent : Int) : List Char :=
  let magnitude := digits exponent.natAbs
  withPoint (significant.take 1) (dropTrailingZeros (significant.drop 1)) ++
    'e' :: (if exponent < 0 then '-' else '+') ::
      (List.replicate (2 - magnitude.length) '0' ++ magnitude)

def general (units : Nat) : List Char :=
  let (significant, exponent) := significant units
  if -4 ≤ exponent ∧ exponent < precision then fixed significant exponent
  else scientific significant exponent

end Decimal

/-- The written form of a double; zero has no sign. -/
def Double.spelling (x : Double) : List Char :=
  if x.isZero then ['0']
  else
    let magnitude := if x.isInfinite then ['i', 'n', 'f'] else Decimal.general x.units
    if x.negative then '-' :: magnitude else magnitude

end Lisplet
