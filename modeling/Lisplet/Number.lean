import Lisplet.Double.Arithmetic
import Lisplet.Decimal.General

/-!
# Numbers

A number is a double or one of the results that are no number.  Each of the latter
carries a mark: two of them are the same value only when they came from the same
computation.  Division and remainder share the mark `0` for their undefined cases; every
other computation makes a mark of its own.
-/

namespace Lisplet

inductive Number where
  | real (x : Double)
  | nan (mark : Nat)
deriving DecidableEq, Inhabited

namespace Number

/-- The mark of the undefined quotients and remainders. -/
def sharedMark : Nat := 0

def spelling : Number → List Char
  | real x => x.spelling
  | nan _ => ['n', 'a', 'n']

/-- Whether two numbers are one value: zeros of either sign are, and a result that is no
number is itself only. -/
def same : Number → Number → Bool
  | real x, real y => x.same y
  | nan m, nan n => m == n
  | _, _ => false

/-- The outcome of an arithmetic operation: a double, the shared mark, or a mark yet to
be made. -/
inductive Outcome where
  | real (x : Double)
  | shared
  | fresh
deriving DecidableEq

def Outcome.ofOption : Option Double → Outcome
  | some x => .real x
  | none => .fresh

/-- Applies an operation on doubles; an operand that is no number, or a missing result,
makes a fresh mark. -/
def lift (operation : Double → Double → Option Double) : Number → Number → Outcome
  | real x, real y => .ofOption (operation x y)
  | _, _ => .fresh

/-- Division: zero, or no number, over zero has the shared mark. -/
def div : Number → Number → Outcome
  | real x, real y =>
    if y.isZero && x.isZero then .shared else .ofOption (x.div? y)
  | nan _, real y => if y.isZero then .shared else .fresh
  | _, nan _ => .fresh

/-- Remainder: the undefined remainders of two doubles have the shared mark. -/
def rem : Number → Number → Outcome
  | real x, real y =>
    match x.rem? y with
    | some z => .real z
    | none => .shared
  | _, _ => .fresh

/-- Applies a comparison of doubles; what is no number compares with nothing. -/
def compare (relation : Double → Double → Bool) : Number → Number → Bool
  | real x, real y => relation x y
  | _, _ => false

end Number

end Lisplet
