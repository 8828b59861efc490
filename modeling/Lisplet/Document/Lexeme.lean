import Lisplet.Text.Pattern
import Lisplet.Token

/-!
# Lexemes

The tokens of a document together with the places where they start.  The document is
scanned once from left to right; a place counts the characters before it, the line feeds
before it and the characters since the last of them, all from zero.  The same tokens can be
searched for with a pattern.
-/

namespace Lisplet.Document

structure Place where
  offset : Nat
  line : Nat
  column : Nat
deriving DecidableEq, Inhabited

namespace Place

def start : Place := ⟨0, 0, 0⟩

def after (place : Place) (c : Char) : Place :=
  if c == '\n' then ⟨place.offset + 1, place.line + 1, 0⟩
  else ⟨place.offset + 1, place.line, place.column + 1⟩

def ofOffset (cs : List Char) (offset : Nat) : Place := (cs.take offset).foldl after start

/-- The order of lines and, within a line, of columns. -/
def le (a b : Place) : Bool := a.line < b.line || (a.line == b.line && a.column ≤ b.column)

end Place

structure Lexeme where
  token : String
  place : Place
deriving DecidableEq

namespace Lexeme

/-- Scans on from a place, inside a word whose characters are given last one first and
which starts at `start`; an empty word is no word. -/
def scanFrom (place start : Place) (word : List Char) : List Char → List Lexeme
  | [] => finish start word []
  | c :: cs =>
    let next := place.after c
    if Text.isBlank c then finish start word (scanFrom next next [] cs)
    else if c == '(' || c == ')' then
      finish start word (⟨String.singleton c, place⟩ :: scanFrom next next [] cs)
    else scanFrom next (if word.isEmpty then place else start) (c :: word) cs
where
  /-- Puts a finished word before the later lexemes. -/
  finish (start : Place) (word : List Char) (later : List Lexeme) : List Lexeme :=
    if word.isEmpty then later else ⟨String.ofList word.reverse, start⟩ :: later

def scan (cs : List Char) : List Lexeme := scanFrom Place.start Place.start [] cs

end Lexeme

/-- A parenthesis, or a run of other characters without blanks. -/
def tokenPattern : Text.Pattern :=
  .either (.one fun c => c == '(' || c == ')') (.both (.one Token.isInner) (.many Token.isInner))

end Lisplet.Document
