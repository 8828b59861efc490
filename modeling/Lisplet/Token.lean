/-!
# Tokens

A source text is cut into tokens: each parenthesis is a token of its own, and so is
every other maximal run of characters without blanks and parentheses.  Blanks are also
trimmed from the ends of other texts.
-/

namespace Lisplet.Text

/-- The first and last code point of every run of blanks, in ascending order. -/
def blankRuns : List (Nat × Nat) := [
  (0x9, 0xd), (0x1c, 0x20), (0x85, 0x85), (0xa0, 0xa0), (0x1680, 0x1680), (0x2000, 0x200a),
  (0x2028, 0x2029), (0x202f, 0x202f), (0x205f, 0x205f), (0x3000, 0x3000)]

def isBlank (c : Char) : Bool :=
  blankRuns.any fun run => run.1 ≤ c.toNat && c.toNat ≤ run.2

/-- The text without the blanks at its two ends. -/
def trimBlanks (cs : List Char) : List Char :=
  ((cs.dropWhile isBlank).reverse.dropWhile isBlank).reverse

def isAllBlank (text : String) : Bool := text.toList.all isBlank

/-- The maximal runs of other characters, in order. -/
def words (cs : List Char) : List (List Char) :=
  go [] cs
where
  /-- Reads on with the characters of the current word, last one first. -/
  go (current : List Char) : List Char → List (List Char)
    | [] => finish current []
    | c :: cs => if isBlank c then finish current (go [] cs) else go (c :: current) cs
  /-- Puts a finished word, unless it is empty, before the later ones. -/
  finish (current : List Char) (later : List (List Char)) : List (List Char) :=
    if current.isEmpty then later else current.reverse :: later

end Lisplet.Text

namespace Lisplet.Token

/-- The two tokens that open and close a list. -/
def opening : String := "("

def closing : String := ")"

def isInner (c : Char) : Bool := !Text.isBlank c && c != '(' && c != ')'

/-- A parenthesis set apart from its neighbours by spaces. -/
def setApart (c : Char) : List Char :=
  if c == '(' || c == ')' then [' ', c, ' '] else [c]

def split (source : List Char) : List String :=
  (Text.words (source.flatMap setApart)).map String.ofList

end Lisplet.Token
