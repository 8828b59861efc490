import Lisplet.Number

/-!
# Data

A datum is what a piece of source text denotes: a number, a boolean, a symbol or a list
of data.  It has a written form, which is its text; a list without elements shows as
nothing on its own and as a pair of parentheses inside another list.
-/

namespace Lisplet

inductive Datum where
  | number (x : Number)
  | boolean (b : Bool)
  | symbol (name : String)
  | list (items : List Datum)
deriving Inhabited

namespace Datum

mutual

/-- The written form of a datum inside a list. -/
def spelling : Datum → List Char
  | number x => x.spelling
  | boolean b => ['#', if b then 't' else 'f']
  | symbol name => name.toList
  | list items => '(' :: (spellingAll items ++ [')'])

/-- The written forms of the elements of a list, with a space between two of them. -/
def spellingAll : List Datum → List Char
  | [] => []
  | [item] => item.spelling
  | item :: next :: items => item.spelling ++ ' ' :: spellingAll (next :: items)

end

def nestedText (d : Datum) : String := String.ofList d.spelling

/-- The written form of a datum on its own: an empty list shows as nothing. -/
def text : Datum → String
  | list [] => ""
  | d => d.nestedText

mutual

/-- How many nested calls writing a datum takes: two for each level of list, one for
what has no elements. -/
def writingDepth : Datum → Nat
  | list (item :: items) => 2 + max item.writingDepth (writingDepthAll items)
  | _ => 1

def writingDepthAll : List Datum → Nat
  | [] => 0
  | item :: items => max item.writingDepth (writingDepthAll items)

end

def isSymbol (name : String) : Datum → Bool
  | symbol other => other == name
  | _ => false

end Datum

end Lisplet
