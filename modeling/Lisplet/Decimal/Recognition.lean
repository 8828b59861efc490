import Lisplet.Decimal.Numeral
import Lisplet.Number
import Lisplet.Text.Pattern
import Lisplet.Token

/-!
# Recognition of numbers

A number can be told in two ways: a pattern describes how it is written, and a
conversion of texts to numbers says whether it can be converted.  The conversion takes
more than the pattern, such as blanks at the ends and names for what is no finite
number.
-/

namespace Lisplet.Decimal

open Text

/-! ## The pattern of numbers -/

def isSign (c : Char) : Bool := c == '+' || c == '-'

def signPattern : Pattern := .optional (.one isSign)

def digitsPattern : Pattern := .both (.one Text.isDigit) (.many Text.isDigit)

/-- Digits with an optional point and more digits after them, or a point and digits. -/
def mantissaPattern : Pattern :=
  .either
    (.both digitsPattern (.both (.optional (.one (· == '.'))) (.many Text.isDigit)))
    (.both (.one (· == '.')) digitsPattern)

def exponentPattern : Pattern :=
  .both (.one fun c => c == 'e' || c == 'E') (.both signPattern digitsPattern)

def numberPattern : Pattern :=
  .both signPattern (.both mantissaPattern (.optional exponentPattern))

/-! ## The conversion of texts -/

/-- A text without its underscores, each of which must stand between two digits. -/
def withoutUnderscores? (afterDigit : Bool) : List Char → Option (List Char)
  | [] => some []
  | c :: cs =>
    if c == '_' then
      if afterDigit && cs.head?.any Text.isDigit then withoutUnderscores? false cs else none
    else (withoutUnderscores? (Text.isDigit c) cs).map (c :: ·)

/-- Converts a text to a number.  Blanks at its ends do not count, underscores may
separate digits, and infinity and the results that are no number have names. -/
def real? (cs : List Char) : Option Number.Outcome := do
  let cs ← withoutUnderscores? false (Text.trimBlanks cs)
  let (negative, unsigned) := takeSign cs
  let name := unsigned.map Char.toLower
  if name = "inf".toList ∨ name = "infinity".toList then
    return .real (Double.infinity negative)
  else if name = "nan".toList then return .fresh
  else (Numeral.ofChars? cs).map fun n => .real n.toDouble

end Lisplet.Decimal
