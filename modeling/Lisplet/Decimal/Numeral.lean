import Lisplet.Double.Arithmetic

/-!
# Decimal numerals

The written form of a number: an optional sign, digits with at most one point among or
around them, and an optional exponent.  The digits may be of any script, also of several at
once; sign, point and exponent mark are ASCII.  A numeral denotes a fraction, and is read
as the double nearest to it.

An integer in the settings is written as an optional sign and digits, in which a single
underscore may stand between two digits.  Numerals with too many digits are refused.
-/

namespace Lisplet.Text

/-- The code point of the zero of every script, in ascending order.  The nine other digits
of the script follow it. -/
def digitZeros : List Nat := [
  0x30, 0x660, 0x6f0, 0x7c0, 0x966, 0x9e6, 0xa66, 0xae6, 0xb66, 0xbe6, 0xc66, 0xce6, 0xd66, 0xde6,
  0xe50, 0xed0, 0xf20, 0x1040, 0x1090, 0x17e0, 0x1810, 0x1946, 0x19d0, 0x1a80, 0x1a90, 0x1b50,
  0x1bb0, 0x1c40, 0x1c50, 0xa620, 0xa8d0, 0xa900, 0xa9d0, 0xa9f0, 0xaa50, 0xabf0, 0xff10, 0x104a0,
  0x10d30, 0x11066, 0x110f0, 0x11136, 0x111d0, 0x112f0, 0x11450, 0x114d0, 0x11650, 0x116c0,
  0x11730, 0x118e0, 0x11950, 0x11c50, 0x11d50, 0x11da0, 0x16a60, 0x16ac0, 0x16b50, 0x1d7ce,
  0x1d7d8, 0x1d7e2, 0x1d7ec, 0x1d7f6, 0x1e140, 0x1e2f0, 0x1e950, 0x1fbf0]

/-- The value of a decimal digit of any script. -/
def digitValue? (c : Char) : Option Nat :=
  (digitZeros.find? fun first => first ≤ c.toNat && c.toNat < first + 10).map (c.toNat - ·)

def isDigit (c : Char) : Bool := (digitValue? c).isSome

theorem digitValue?_lt {c : Char} {value : Nat} (h : digitValue? c = some value) : value < 10 := by
  simp only [digitValue?, Option.map_eq_some_iff] at h
  obtain ⟨first, hfind, rfl⟩ := h
  have hfirst := List.find?_some hfind
  simp only [Bool.and_eq_true, decide_eq_true_eq] at hfirst
  omega

end Lisplet.Text

namespace Lisplet

namespace Decimal

/-- The value of a sequence of digits, most significant first. -/
def ofDigits (digits : List Nat) : Nat :=
  digits.foldl (fun value digit => value * 10 + digit) 0

/-- The values of the digits at the front of a text, and the rest. -/
def takeDigits : List Char → List Nat × List Char
  | [] => ([], [])
  | c :: cs =>
    match Text.digitValue? c with
    | some digit => let (digits, rest) := takeDigits cs; (digit :: digits, rest)
    | none => ([], c :: cs)

/-- Whether a text starts with a minus sign, and what follows its sign if it has one. -/
def takeSign : List Char → Bool × List Char
  | '-' :: cs => (true, cs)
  | '+' :: cs => (false, cs)
  | cs => (false, cs)

/-- The digits after a point at the front of a text, and the rest. -/
def takeFraction : List Char → List Nat × List Char
  | '.' :: cs => takeDigits cs
  | cs => ([], cs)

/-- The exponent that makes up a whole text; a text without one has exponent zero. -/
def exponent? : List Char → Option Int
  | [] => some 0
  | mark :: cs =>
    if mark == 'e' || mark == 'E' then
      let (negative, cs) := takeSign cs
      match takeDigits cs with
      | (digits@(_ :: _), []) =>
        some (if negative then -(ofDigits digits : Int) else ofDigits digits)
      | _ => none
    else none

end Decimal

/-- The parts of a numeral: the digits before and after the point, and the exponent of
ten. -/
structure Numeral where
  negative : Bool
  whole : List Nat
  fraction : List Nat
  exponent : Int
deriving DecidableEq, Repr

namespace Numeral

open Decimal

def ofChars? (cs : List Char) : Option Numeral :=
  let (negative, cs) := takeSign cs
  let (whole, cs) := takeDigits cs
  let (fraction, cs) := takeFraction cs
  if whole.isEmpty && fraction.isEmpty then none
  else (exponent? cs).map fun exponent => ⟨negative, whole, fraction, exponent⟩

def significand (n : Numeral) : Nat := ofDigits (n.whole ++ n.fraction)

/-- The power of ten that the significand is multiplied with. -/
def scale (n : Numeral) : Int := n.exponent - n.fraction.length

def nearestDouble (negative : Bool) (significand : Nat) (scale : Int) : Double :=
  if 0 ≤ scale then
    Double.nearest negative (significand * Nat.pow 10 scale.toNat * Double.unitsOfOne) 1
  else
    Double.nearest negative (significand * Double.unitsOfOne) (Nat.pow 10 scale.natAbs)

/-- The double that a numeral denotes.  A number of at least `10 ^ 310` is infinite and
one below `10 ^ (-330)` is zero, so that no power of ten larger than the digits call for
is ever formed. -/
def toDouble (n : Numeral) : Double :=
  let digits := (n.whole ++ n.fraction).dropWhile (· == 0)
  let size := digits.length + n.scale
  if digits.isEmpty || size < -330 then Double.zero n.negative
  else if 310 < size then Double.infinity n.negative
  else nearestDouble n.negative n.significand n.scale

end Numeral

end Lisplet

namespace Lisplet.Decimal

/-- The digits of a text in which single underscores may separate digits. -/
def groupedDigits? (cs : List Char) : Option (List Nat) :=
  go false cs
where
  /-- Reads on; an underscore, and the end, may only come after a digit. -/
  go (afterDigit : Bool) : List Char → Option (List Nat)
    | [] => if afterDigit then some [] else none
    | c :: cs =>
      match Text.digitValue? c with
      | some digit => (go true cs).map (digit :: ·)
      | none => if c == '_' && afterDigit then go false cs else none

def maxDigits : Nat := 4300

def integer? (cs : List Char) : Option Int := do
  let (negative, cs) := takeSign cs
  let digits ← groupedDigits? cs
  if digits.length ≤ maxDigits then
    return if negative then -(ofDigits digits : Int) else ofDigits digits
  else none

end Lisplet.Decimal
