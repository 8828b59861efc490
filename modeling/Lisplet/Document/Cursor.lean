import Lisplet.Text.Lines

/-!
# The word at a cursor

A cursor is a line and a character in it, each counted from either end.  The word at the
cursor is the maximal run around it without spaces, tabs, parentheses and line ends.

A position counted from either end is a whole number: from `0` on it counts from the
front, and a negative one counts from the back, `-1` being the last element.
-/

namespace Lisplet.Text

/-- The element at a position; `none` when there is none on either side. -/
def atEitherEnd? {α : Type} (xs : List α) (position : Int) : Option α :=
  if 0 ≤ position then xs[position.toNat]?
  else if position.natAbs ≤ xs.length then xs[xs.length - position.natAbs]?
  else none

/-- The boundary that a position names in a list of the given length; one outside the
list names the nearer end. -/
def boundary (length : Nat) (position : Int) : Nat :=
  if 0 ≤ position then min position.toNat length else length - position.natAbs

/-- The elements from one boundary up to another; none when they are out of order. -/
def between {α : Type} (xs : List α) (start stop : Int) : List α :=
  let first := boundary xs.length start
  (xs.drop first).take (boundary xs.length stop - first)

end Lisplet.Text

namespace Lisplet.Document

/-- Why a cursor is nowhere: the line or the character lies before the first one. -/
inductive CursorFault where
  | noLine
  | noCharacter
deriving DecidableEq

def CursorFault.message : CursorFault → String
  | noLine => "list index out of range"
  | noCharacter => "string index out of range"

def endsWord (c : Char) : Bool :=
  c == ' ' || c == '\t' || c == '(' || c == ')' || c == '\n' || c == '\r'

/-- Where the word starts that reaches up to a character of a line. -/
def wordStart (line : List Char) (character : Int) : Int :=
  let start := min character line.length
  if 0 < start then
    start - ((line.take start.toNat).reverse.takeWhile (!endsWord ·)).length
  else start

/-- Where the word ends that goes on from a character of a line.  A character counted
from the back is followed by the rest of the line and then by the line from its
front. -/
def wordEnd? (line : List Char) (character : Int) : Option Int :=
  if 0 ≤ character then
    some (character + ((line.drop character.toNat).takeWhile (!endsWord ·)).length)
  else if character.natAbs ≤ line.length then
    let onward := line.drop (line.length - character.natAbs) ++ line
    some (character + (onward.takeWhile (!endsWord ·)).length)
  else none

def wordInLine (line : List Char) (character : Int) :
    Except CursorFault (Option String × Int) :=
  match wordEnd? line character with
  | none => .error .noCharacter
  | some stop =>
    let start := wordStart line character
    let word := Text.between line start stop
    .ok (if word.isEmpty then none else some (String.ofList word), start)

/-- The word at a cursor, and where it starts; there is none after the last line. -/
def wordAt (cs : List Char) (line character : Int) : Except CursorFault (Option String × Int) :=
  let lines := Text.documentLines cs
  if lines.length ≤ line then .ok (none, character)
  else
    match Text.atEitherEnd? lines line with
    | none => .error .noLine
    | some text => wordInLine text character

end Lisplet.Document
