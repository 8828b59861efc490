import Lisplet.Procedure

/-!
# Evaluation

Expressions are evaluated by walking them: a symbol is looked up, a list is a special
form or an application, and everything else is its own value.  Every function here takes
the room for nested calls that is left and gives one less to what it calls, so that a
run which nests too deeply fails instead of going on forever.
-/

namespace Lisplet

open Lisplet.Computation

mutual

/-- The value of an expression in a frame. -/
def evaluate (room : Nat) (expression : Value) (place : FrameId) : Computation Value :=
  match room with
  | 0 => throw .depthExceeded
  | room + 1 =>
    match expression with
    | .symbol name => lookup place name
    | .list _ (head :: operands) =>
      match SpecialForm.ofHead? head with
      | some form => evaluateForm room form operands place
      | none => do
        let procedure ← evaluate room head place
        let arguments ← evaluateEach room operands place
        apply room procedure arguments place
    | value => return value
termination_by structural room

/-- The values of some expressions, evaluated from left to right. -/
def evaluateEach (room : Nat) (expressions : List Value) (place : FrameId) :
    Computation (List Value) :=
  match room with
  | 0 => throw .depthExceeded
  | room + 1 => expressions.mapM fun expression => evaluate room expression place
termination_by structural room

def evaluateForm (room : Nat) (form : SpecialForm) (operands : List Value) (place : FrameId) :
    Computation Value :=
  match room with
  | 0 => throw .depthExceeded
  | room + 1 => form.run room (fun expression => evaluate room expression place) operands place
termination_by structural room

/-- Applies a procedure to arguments.  The body of a closure is evaluated in a new frame
inside the one that the closure keeps, wherever the call comes from. -/
def apply (room : Nat) (procedure : Value) (arguments : List Value) (place : FrameId) :
    Computation Value :=
  match room with
  | 0 => throw .depthExceeded
  | room + 1 =>
    match procedure with
    | .closure _ parameters body scope => do
      evaluate room body (← bindParameters room parameters arguments (some scope))
    | .primitive _ operation => runPrimitive room operation arguments place
    | other => refuse room other .notProcedure
termination_by structural room

def runPrimitive (room : Nat) (operation : Primitive) (arguments : List Value) (place : FrameId) :
    Computation Value :=
  match room with
  | 0 => throw .depthExceeded
  | room + 1 =>
    operation.run room (fun procedure arguments => apply room procedure arguments place)
      (fun procedure items => applyEach room procedure items place) arguments
termination_by structural room

/-- Applies a procedure to every element of a list, from left to right. -/
def applyEach (room : Nat) (procedure : Value) (items : List Value) (place : FrameId) :
    Computation (List Value) :=
  match room with
  | 0 => throw .depthExceeded
  | room + 1 => items.mapM fun item => apply room procedure [item] place
termination_by structural room

end

end Lisplet
