/-!
# Patterns

A pattern describes texts by the characters, options, repetitions and alternatives that
they are made of.  A search tries these in order, the longer repetition and the option
that is taken first, and keeps what is left of the text after every attempt.
-/

namespace Lisplet.Text

inductive Pattern where
  /-- One character that passes a test. -/
  | one (test : Char → Bool)
  /-- Any number of characters that pass a test. -/
  | many (test : Char → Bool)
  | optional (part : Pattern)
  | both (first second : Pattern)
  | either (first second : Pattern)

namespace Pattern

/-- What is left after each number of characters that pass a test, most of them first. -/
def restsOfMany (test : Char → Bool) : List Char → List (List Char)
  | [] => [[]]
  | c :: cs => if test c then restsOfMany test cs ++ [c :: cs] else [c :: cs]

/-- What is left of a text after each way to match a pattern at its front, in the order
in which the ways are tried. -/
def rests : Pattern → List Char → List (List Char)
  | one _, [] => []
  | one test, c :: cs => if test c then [cs] else []
  | many test, cs => restsOfMany test cs
  | optional part, cs => part.rests cs ++ [cs]
  | both first second, cs => (first.rests cs).flatMap second.rests
  | either first second, cs => first.rests cs ++ second.rests cs

/-- Whether some way to match a pattern uses up a whole text. -/
def matchesWhole (p : Pattern) (cs : List Char) : Bool := (p.rests cs).any List.isEmpty

/-- What is left after the first way to match a pattern at the front of a text. -/
def firstRest? (p : Pattern) (cs : List Char) : Option (List Char) := (p.rests cs).head?

/-- The matches of a pattern in a text, each with its offset, when so many characters
stand before the text.  The search goes on behind a match, and with the next character
where there is none; an empty match counts as none. -/
def findAll (p : Pattern) (offset : Nat) (cs : List Char) : List (Nat × List Char) :=
  match cs with
  | [] => []
  | c :: cs =>
    match p.firstRest? (c :: cs) with
    | none => findAll p (offset + 1) cs
    | some rest =>
      if rest.length ≤ cs.length then
        let found := (c :: cs).take (cs.length + 1 - rest.length)
        (offset, found) :: findAll p (offset + found.length) rest
      else findAll p (offset + 1) cs
termination_by cs.length

end Pattern

end Lisplet.Text
