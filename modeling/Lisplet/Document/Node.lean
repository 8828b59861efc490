import Lisplet.Document.Lexeme
import Lisplet.SpecialForm

/-!
# Nodes

A document is read into nodes that know where they start.  The reading never fails: a
parenthesis that closes nothing is left out, and a list that is never closed ends with
the document and is marked.
-/

namespace Lisplet.Document

inductive Node where
  | atom (place : Place) (token : String)
  | list (place : Place) (children : List Node) (closed : Bool)
deriving Inhabited

inductive ProblemCause where
  | strayClose
  | unclosed
  /-- A special form with a wrong number of operands. -/
  | operandCount (form : SpecialForm) (given : Nat)
deriving DecidableEq

structure Problem where
  cause : ProblemCause
  place : Place
deriving DecidableEq

/-- A list that is open: where it starts, and the nodes before it, last one first. -/
structure OpenNode where
  place : Place
  before : List Node

structure NodeReading where
  nodes : List Node
  problems : List Problem

namespace NodeReading

/-- Ends all open lists, innermost first.  `children` are the nodes of the innermost
one, last one first. -/
def endAll (children : List Node) : List OpenNode → List Node
  | [] => children.reverse
  | opened :: outer => endAll (.list opened.place children.reverse false :: opened.before) outer

/-- Reads on with these nodes in the innermost open list, last one first.  The problems
are the stray parentheses in order, and then the open lists, outermost first. -/
def readFrom (children : List Node) (opened : List OpenNode) : List Lexeme → NodeReading
  | [] => ⟨endAll children opened, opened.reverse.map fun node => ⟨.unclosed, node.place⟩⟩
  | lexeme :: lexemes =>
    if lexeme.token = Token.opening then
      readFrom [] (⟨lexeme.place, children⟩ :: opened) lexemes
    else if lexeme.token = Token.closing then
      match opened with
      | [] =>
        let later := readFrom children [] lexemes
        { later with problems := ⟨.strayClose, lexeme.place⟩ :: later.problems }
      | node :: outer =>
        readFrom (.list node.place children.reverse true :: node.before) outer lexemes
    else readFrom (.atom lexeme.place lexeme.token :: children) opened lexemes

def ofDocument (cs : List Char) : NodeReading := readFrom [] [] (Lexeme.scan cs)

end NodeReading

namespace Node

/-- The special form that the first child of a list names, and where its keyword
stands. -/
def headForm? : List Node → Option (SpecialForm × Place)
  | .atom place token :: _ => (SpecialForm.ofKeyword? token).map (·, place)
  | _ => none

/-- Whether the children of a list are code; those of a quotation are not. -/
def holdsCode (children : List Node) : Bool :=
  match headForm? children with
  | some (.quotation, _) => false
  | _ => true

end Node

end Lisplet.Document
