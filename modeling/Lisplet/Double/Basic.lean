/-!
# Doubles

The sixty-four bit binary numbers, without the patterns that stand for no number.  The
magnitudes of one sign are linearly ordered, so a magnitude is kept as its place in that
order: place `0` is zero, the next `2 ^ 52 - 1` places are the subnormals, and the last
one is infinity.  A magnitude is a whole number of *units*, the unit being the smallest
positive double `2 ^ (-1074)`; all arithmetic is then arithmetic of natural numbers
followed by one rounding.
-/

namespace Lisplet

namespace Double

/-- The number of significand bits below the leading one. -/
def fractionBits : Nat := 52

/-- How many places share one exponent. -/
def binade : Nat := Nat.pow 2 fractionBits

/-- The place of infinity in the order of magnitudes. -/
def infinityPlace : Nat := 2047 * binade

/-- One is this many units. -/
def unitsOfOne : Nat := Nat.pow 2 1074

theorem binade_pos : 0 < binade := Nat.two_pow_pos _

end Double

/-- A double that is a number: a sign and the place of its magnitude.  Zero and infinity
come with either sign. -/
structure Double where
  negative : Bool
  place : Nat
  place_le : place ≤ Double.infinityPlace
deriving DecidableEq

namespace Double

instance : Inhabited Double := ⟨false, 0, Nat.zero_le _⟩

/-- The double of a sign and a place, infinity standing for every place past the last. -/
def ofPlace (negative : Bool) (place : Nat) : Double :=
  ⟨negative, min place infinityPlace, Nat.min_le_right _ _⟩

def zero (negative : Bool) : Double := ofPlace negative 0

def infinity (negative : Bool) : Double := ofPlace negative infinityPlace

def isZero (x : Double) : Bool := x.place == 0

def isInfinite (x : Double) : Bool := x.place == infinityPlace

/-- The power of two that the significand of a finite place is multiplied with, in
units. -/
def scaleOfPlace (place : Nat) : Nat :=
  place / binade - 1

/-- The integer significand of a finite place: the subnormals have no leading one. -/
def significandOfPlace (place : Nat) : Nat :=
  if place < binade then place else binade + place % binade

def units (x : Double) : Nat :=
  significandOfPlace x.place * Nat.pow 2 (scaleOfPlace x.place)

def signedUnits (x : Double) : Int :=
  if x.negative then -(x.units : Int) else x.units

/-- The rank of a double in the order of the numbers; the two zeros share a rank. -/
def rank (x : Double) : Int :=
  if x.negative then -(x.place : Int) else x.place

/-- Numeric equality: the two zeros are one number. -/
def same (x y : Double) : Bool := x.rank == y.rank

def lt (x y : Double) : Bool := x.rank < y.rank

def le (x y : Double) : Bool := x.rank ≤ y.rank

def neg (x : Double) : Double := { x with negative := !x.negative }

def signBit : Nat := Nat.pow 2 63

/-- The standard interchange pattern: the sign bit, then the place. -/
def toBits (x : Double) : UInt64 :=
  UInt64.ofNat ((if x.negative then signBit else 0) + x.place)

/-- The double of an interchange pattern; `none` for the patterns that are no number. -/
def ofBits? (bits : UInt64) : Option Double :=
  let place := bits.toNat % signBit
  if h : place ≤ infinityPlace then
    some ⟨signBit ≤ bits.toNat, place, h⟩
  else
    none

end Double

end Lisplet
