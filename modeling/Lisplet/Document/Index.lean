import Lisplet.Document.Node
import Lisplet.Failure

/-!
# The index of a document

What an editor knows of a document without evaluating it: the names that its top-level
forms define, and its problems.  Besides misplaced parentheses, a special form with a
wrong number of operands is a problem, wherever it stands in code.
-/

namespace Lisplet.Document

/-- The smallest and, if there is one, the largest number of operands of a special
form. -/
def operandBounds : SpecialForm → Nat × Option Nat
  | .quotation => (1, some 1)
  | .conditional => (3, some 3)
  | .definition => (2, some 2)
  | .assignment => (2, some 2)
  | .abstraction => (2, some 2)
  | .sequence => (1, none)

def acceptsOperands (form : SpecialForm) (count : Nat) : Bool :=
  let (least, most) := operandBounds form
  least ≤ count && most.all (count ≤ ·)

namespace ProblemCause

def expectation (form : SpecialForm) : String :=
  let (least, most) := operandBounds form
  if most = some least then toString least else "at least " ++ toString least

def message : ProblemCause → String
  | strayClose => "unexpected ')'"
  | unclosed => "unexpected EOF while reading: unclosed '('"
  | operandCount form given =>
    form.keyword ++ " expects " ++ expectation form ++ " operand(s), got " ++ toString given

/-- How many characters are marked: a parenthesis or a keyword. -/
def length : ProblemCause → Nat
  | strayClose | unclosed => 1
  | operandCount form _ => form.keyword.length

end ProblemCause

namespace Node

/-- The problem of a list itself: a closed special form with a wrong number of
operands. -/
def ownProblems (children : List Node) (closed : Bool) : List Problem :=
  match headForm? children with
  | none => []
  | some (form, place) =>
    let given := children.length - 1
    if closed && !acceptsOperands form given then [⟨.operandCount form given, place⟩] else []

mutual

/-- The special forms with a wrong number of operands in a node, outer ones first. -/
def problems : Node → List Problem
  | atom .. => []
  | list _ children closed =>
    ownProblems children closed ++ if holdsCode children then problemsAll children else []

def problemsAll : List Node → List Problem
  | [] => []
  | node :: nodes => node.problems ++ problemsAll nodes

end

mutual

/-- How many nested calls looking for problems takes. -/
def checkingDepth : Node → Nat
  | atom .. => 1
  | list _ children _ => 1 + if holdsCode children then checkingDepthAll children else 0

def checkingDepthAll : List Node → Nat
  | [] => 0
  | node :: nodes => max node.checkingDepth (checkingDepthAll nodes)

end

def token? : Node → Option String
  | atom _ token => some token
  | list .. => none

end Node

/-- A name that a top-level form defines, where the name stands, and the names of its
parameters if it is defined as a procedure. -/
structure Definition where
  name : String
  place : Place
  parameters : Option (List String)
deriving DecidableEq

namespace Definition

/-- How a definition is used: a call for a procedure, the name for anything else. -/
def signature (definition : Definition) : String :=
  match definition.parameters with
  | some parameters => "(" ++ String.intercalate " " (definition.name :: parameters) ++ ")"
  | none => definition.name

/-- The parameters of a procedure that is written out; elements that are no names are
left out. -/
def parametersOf? : List Node → Option (List String)
  | .list _ (.atom _ head :: .list _ parameters _ :: _) _ :: _ =>
    if head = SpecialForm.abstraction.keyword then some (parameters.filterMap Node.token?) else none
  | _ => none

/-- The definition that a top-level node is, if it is one. -/
def ofNode? : Node → Option Definition
  | .list _ (.atom _ head :: .atom place name :: value) _ =>
    if head = SpecialForm.definition.keyword then some ⟨name, place, parametersOf? value⟩ else none
  | _ => none

/-- Adds a definition to others: one of a known name takes the place of the earlier
one. -/
def merge (definitions : List Definition) (definition : Definition) : List Definition :=
  match definitions with
  | [] => [definition]
  | other :: rest =>
    if other.name = definition.name then definition :: rest else other :: merge rest definition

end Definition

structure Index where
  nodes : List Node
  definitions : List Definition
  problems : List Problem

namespace Index

def empty : Index := ⟨[], [], []⟩

/-- The index of a document, its problems in the order of their places.  Looking for
problems fails when code is nested too deeply. -/
def ofDocument (limit : Nat) (cs : List Char) : Except Failure Index :=
  let reading := NodeReading.ofDocument cs
  if Node.checkingDepthAll reading.nodes ≤ limit then
    let definitions := (reading.nodes.filterMap Definition.ofNode?).foldl Definition.merge []
    let problems := reading.problems ++ Node.problemsAll reading.nodes
    .ok ⟨reading.nodes, definitions, problems.mergeSort fun a b => a.place.le b.place⟩
  else .error .depthExceeded

def definition? (index : Index) (name : String) : Option Definition :=
  index.definitions.find? fun definition => definition.name == name

end Index

end Lisplet.Document
