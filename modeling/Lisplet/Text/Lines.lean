/-!
# Lines

Two ways to see lines in a text.  A document shown in an editor ends a line at every
character that moves to a new line; a file read from disk has its carriage returns
turned into line feeds first.
-/

namespace Lisplet.Text

def isLineEnd (c : Char) : Bool :=
  c == '\n' || c == '\r' || c == '\x0b' || c == '\x0c' || c == '\x1c' || c == '\x1d' || c == '\x1e' ||
    c == '\u0085' || c == '\u2028' || c == '\u2029'

/-- The lines of a document, each with the characters that end it.  A carriage return
and the line feed after it end one line together; nothing after the last line end is no
line. -/
def documentLines (cs : List Char) : List (List Char) :=
  go [] cs
where
  /-- Reads on with the characters of the current line, last one first. -/
  go (current : List Char) : List Char → List (List Char)
    | [] => if current.isEmpty then [] else [current.reverse]
    | '\r' :: '\n' :: cs => ('\n' :: '\r' :: current).reverse :: go [] cs
    | c :: cs => if isLineEnd c then (c :: current).reverse :: go [] cs else go (c :: current) cs

/-- Turns every line end made with a carriage return into a line feed. -/
def plainNewlines : List Char → List Char
  | [] => []
  | '\r' :: '\n' :: cs => '\n' :: plainNewlines cs
  | c :: cs => (if c == '\r' then '\n' else c) :: plainNewlines cs

/-- The pieces of a text between line feeds; there is always one more than there are
line feeds. -/
def feedLines (cs : List Char) : List (List Char) :=
  go [] cs
where
  /-- Reads on with the characters of the current piece, last one first. -/
  go (current : List Char) : List Char → List (List Char)
    | [] => [current.reverse]
    | c :: cs => if c == '\n' then current.reverse :: go [] cs else go (c :: current) cs

end Lisplet.Text
