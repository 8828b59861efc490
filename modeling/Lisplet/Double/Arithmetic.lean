import Lisplet.Double.Basic

/-!
# Rounding and arithmetic of doubles

A positive fraction is rounded to a multiple of a power of two that leaves at most
fifty-three significant bits, a half going to the even neighbour.  Because a magnitude
is kept as its place, the place of the result is one sum: a carry out of the significand
reaches the next exponent by itself, and a place past the last one is infinity.

Every operation is the exact result rounded once.  An operation that has no result, such
as the difference of two infinities, answers `none`; a zero result keeps the sign the
standard gives it.
-/

namespace Lisplet

/-- The whole number nearest to `numerator / denominator`, a half going to the even
one. -/
def roundHalfEven (numerator denominator : Nat) : Nat :=
  let quotient := numerator / denominator
  let twice := 2 * (numerator % denominator)
  if twice < denominator then quotient
  else if denominator < twice then quotient + 1
  else quotient + quotient % 2

namespace Double

/-- The exponent at which a magnitude of `whole` whole units is rounded. -/
def roundingScale (whole : Nat) : Nat :=
  if whole < 2 * binade then 0 else whole.log2 - fractionBits

/-- The place nearest to `numerator / denominator` units, before infinity cuts it off. -/
def nearestPlace (numerator denominator : Nat) : Nat :=
  let scale := roundingScale (numerator / denominator)
  scale * binade + roundHalfEven numerator (denominator * Nat.pow 2 scale)

/-- The double nearest to a fraction of units with the given sign. -/
def nearest (negative : Bool) (numerator denominator : Nat) : Double :=
  ofPlace negative (nearestPlace numerator denominator)

def ofNat (n : Nat) : Double := nearest false (n * unitsOfOne) 1

/-! ## Operations -/

/-- The sum; a zero sum is negative only when both operands are. -/
def add? (x y : Double) : Option Double :=
  if x.isInfinite then
    if y.isInfinite && x.negative != y.negative then none else some x
  else if y.isInfinite then some y
  else
    let sum := x.signedUnits + y.signedUnits
    if sum = 0 then some (zero (x.negative && y.negative))
    else some (nearest (sum < 0) sum.natAbs 1)

def sub? (x y : Double) : Option Double := x.add? y.neg

/-- The product; infinity times zero is none. -/
def mul? (x y : Double) : Option Double :=
  let negative := x.negative != y.negative
  if x.isInfinite || y.isInfinite then
    if x.isZero || y.isZero then none else some (infinity negative)
  else
    some (nearest negative (x.units * y.units) unitsOfOne)

/-- The quotient; a number over zero is infinite, zero over zero and infinity over
infinity are none. -/
def div? (x y : Double) : Option Double :=
  let negative := x.negative != y.negative
  if x.isInfinite then
    if y.isInfinite then none else some (infinity negative)
  else if y.isInfinite then some (zero negative)
  else if y.isZero then
    if x.isZero then none else some (infinity negative)
  else
    some (nearest negative (x.units * unitsOfOne) y.units)

/-- The remainder of the quotient cut toward zero, with the sign of the dividend;
exact. -/
def rem? (x y : Double) : Option Double :=
  if x.isInfinite || y.isZero then none
  else if y.isInfinite then some x
  else some (nearest x.negative (x.units % y.units) 1)

end Double

end Lisplet
