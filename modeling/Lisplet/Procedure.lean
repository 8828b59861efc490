import Lisplet.Store

/-!
# What primitives and special forms do

Each is a short rule over the way expressions are evaluated and procedures applied,
which it is given.  Arguments are values already; operands of a special form are not.
-/

namespace Lisplet

open Lisplet.Computation

/-- The value of a form that has nothing to show. -/
def Value.nothing : Value := .list 0 []

namespace Primitive

def unary {α : Type} (operation : Primitive) (arguments : List Value)
    (body : Value → Computation α) : Computation α :=
  match arguments with
  | [x] => body x
  | _ => throw (.argumentCount operation 1 arguments.length)

def binary {α : Type} (operation : Primitive) (arguments : List Value)
    (body : Value → Value → Computation α) : Computation α :=
  match arguments with
  | [x, y] => body x y
  | _ => throw (.argumentCount operation 2 arguments.length)

def expectNumber (room : Nat) (operation : Primitive) : Value → Computation Number
  | .number x => return x
  | other => refuse room other (.expectedNumber operation)

def expectList (room : Nat) (operation : Primitive) : Value → Computation (List Value)
  | .list _ items => return items
  | other => refuse room other (.expectedList operation)

def expectBoolean (room : Nat) (operation : Primitive) : Value → Computation Bool
  | .boolean b => return b
  | other => refuse room other (.expectedBoolean operation)

/-- The numbers that two arguments are; the first one is looked at first. -/
def expectNumbers (room : Nat) (operation : Primitive) (x y : Value) :
    Computation (Number × Number) := do
  let m ← expectNumber room operation x
  let n ← expectNumber room operation y
  return (m, n)

end Primitive

namespace Arithmetic

def outcome : Arithmetic → Number → Number → Number.Outcome
  | add => Number.lift Double.add?
  | sub => Number.lift Double.sub?
  | mul => Number.lift Double.mul?
  | div => Number.div
  | rem => Number.rem

end Arithmetic

namespace Comparison

def holds : Comparison → Number → Number → Bool
  | lt => Number.compare Double.lt
  | le => Number.compare Double.le
  | eq => Number.compare Double.same
  | gt => Number.compare fun x y => y.lt x
  | ge => Number.compare fun x y => y.le x

end Comparison

/-- The number of an outcome; a fresh mark is taken where one is needed. -/
def Number.Outcome.toNumber : Number.Outcome → Computation Number
  | .real x => return .real x
  | .shared => return .nan sharedMark
  | .fresh => return .nan (← freshIdentity)

namespace Primitive

/-- Runs a primitive.  `apply` applies a procedure to arguments, and `applyEach` applies
one to every element of a list in turn. -/
def run (room : Nat) (apply : Value → List Value → Computation Value)
    (applyEach : Value → List Value → Computation (List Value))
    (operation : Primitive) (arguments : List Value) : Computation Value :=
  match operation with
  | arithmetic kind => binary operation arguments fun x y => do
    let (m, n) ← expectNumbers room operation x y
    return .number (← (kind.outcome m n).toNumber)
  | comparison relation => binary operation arguments fun x y => do
    let (m, n) ← expectNumbers room operation x y
    return .boolean (relation.holds m n)
  | variant test => unary operation arguments fun x => return .boolean (x.isVariant test)
  | car => unary operation arguments fun x => do
    match ← expectList room operation x with
    | [] => throw (.emptyList operation)
    | item :: _ => return item
  | cdr => unary operation arguments fun x => do
    match ← expectList room operation x with
    | [] => throw (.emptyList operation)
    | _ :: items => newList items
  | cons => binary operation arguments fun x y => do
    newList (x :: (← expectList room operation y))
  | append => binary operation arguments fun x y => do
    let front ← expectList room operation x
    let back ← expectList room operation y
    newList (front ++ back)
  | list => newList arguments
  | length => unary operation arguments fun x => do
    return .number (.real (Double.ofNat (← expectList room operation x).length))
  | not => unary operation arguments fun x => do
    return .boolean (!(← expectBoolean room operation x))
  | identical => binary operation arguments fun x y => return .boolean (x.identical y)
  | equal => binary operation arguments fun x y => do
    match x.sameWithin? room y with
    | some answer => return .boolean answer
    | none => throw .depthExceeded
  | map => binary operation arguments fun procedure xs => do
    newList (← applyEach procedure (← expectList room operation xs))
  | Primitive.apply => binary operation arguments fun procedure xs => do
    apply procedure (← expectList room operation xs)

end Primitive

namespace SpecialForm

def quote (operands : List Value) : Computation Value :=
  match operands with
  | [datum] => return datum
  | _ => throw (.operandCount .quotation)

/-- Only the two booleans steer a conditional. -/
def branch (room : Nat) (evaluate : Value → Computation Value) (operands : List Value) :
    Computation Value :=
  match operands with
  | [test, consequent, alternative] => do
    match ← evaluate test with
    | .boolean true => evaluate consequent
    | .boolean false => evaluate alternative
    | other => refuse room other .testNotBoolean
  | _ => throw (.operandCount .conditional)

/-- A definition binds in the innermost frame, and shows nothing. -/
def bindHere (room : Nat) (evaluate : Value → Computation Value) (operands : List Value)
    (place : FrameId) : Computation Value :=
  match operands with
  | [name, expression] =>
    match name with
    | .symbol _ => do
      define room place name (← evaluate expression)
      return Value.nothing
    | other => refuse room other .definedNotSymbol
  | _ => throw (.operandCount .definition)

/-- An assignment changes the innermost binding that there is, and shows nothing. -/
def rebind (room : Nat) (evaluate : Value → Computation Value) (operands : List Value)
    (place : FrameId) : Computation Value :=
  match operands with
  | [name, expression] =>
    match name with
    | .symbol _ => do
      assign room place name (← evaluate expression)
      return Value.nothing
    | other => refuse room other .assignedNotSymbol
  | _ => throw (.operandCount .assignment)

def isSymbol : Value → Bool
  | .symbol _ => true
  | _ => false

/-- A closure keeps the frame it is made in; its parameters have to be symbols. -/
def close (room : Nat) (operands : List Value) (place : FrameId) : Computation Value :=
  match operands with
  | [parameters, body] =>
    match parameters with
    | .list _ parameters =>
      match parameters.find? (!isSymbol ·) with
      | some other => refuse room other .parameterNotSymbol
      | none => do return .closure (← freshIdentity) parameters body place
    | other => refuse room other .parametersNotList
  | _ => throw (.operandCount .abstraction)

/-- The value of a sequence is that of its last expression. -/
def inSequence (evaluate : Value → Computation Value) (operands : List Value) : Computation Value :=
  match operands with
  | [] => throw (.operandCount .sequence)
  | [expression] => evaluate expression
  | expression :: next :: later => do
    discard (evaluate expression)
    inSequence evaluate (next :: later)

/-- Runs a special form on its operands in a frame, given how to evaluate there. -/
def run (room : Nat) (evaluate : Value → Computation Value) (form : SpecialForm)
    (operands : List Value) (place : FrameId) : Computation Value :=
  match form with
  | quotation => quote operands
  | conditional => branch room evaluate operands
  | definition => bindHere room evaluate operands place
  | assignment => rebind room evaluate operands place
  | abstraction => close room operands place
  | sequence => inSequence evaluate operands

end SpecialForm

end Lisplet
