import Lisplet.Evaluation

/-!
# Operations without a result

Indexing a list, taking one apart, looking up a key, dividing: these operations have no
result for some arguments, and the evaluator applies them after checks only.  Here it is
written out over operations that fault where they have no result.  A fault is caught in the
two places where the language gives a quotient or a remainder that the doubles do not have.
That no other fault ever comes up is shown in `Lisplet.Proofs.Evaluation.Checks`.
-/

namespace Lisplet

open Lisplet.Computation

/-- What goes wrong where an operation has no result. -/
inductive Fault where
  /-- There is no element at an index. -/
  | noElement
  /-- A list has another number of elements than it is taken apart into. -/
  | wrongLength
  /-- There is nothing under a key. -/
  | noEntry
  /-- The divisor is zero. -/
  | zeroDivisor
  /-- Two doubles have no remainder. -/
  | noRemainder

namespace Unchecked

variable {α β : Type}

/-- Why there is no answer: a failure of the language, or a fault. -/
inductive Breakdown where
  | failure (failure : Failure)
  | fault (fault : Fault)

abbrev Attempt := EStateM Breakdown Store

def of (computation : Computation α) : Attempt α := fun s =>
  match computation s with
  | .ok answer t => .ok answer t
  | .error failure t => .error (.failure failure) t

def fail (failure : Failure) : Attempt α := throw (.failure failure)

/-- Takes the result of an operation that may fault. -/
def risk (result : Except Fault α) : Attempt α :=
  match result with
  | .ok answer => pure answer
  | .error fault => throw (.fault fault)

/-! ## Operations that may fault -/

def element (items : List α) (index : Nat) : Except Fault α :=
  match items[index]? with
  | some item => .ok item
  | none => .error .noElement

def last (items : List α) : Except Fault α :=
  match items.getLast? with
  | some item => .ok item
  | none => .error .noElement

/-- Takes a list apart into the first element and the others. -/
def behead : List α → Except Fault (α × List α)
  | head :: rest => .ok (head, rest)
  | [] => .error .wrongLength

def two : List α → Except Fault (α × α)
  | [x, y] => .ok (x, y)
  | _ => .error .wrongLength

def three : List α → Except Fault (α × α × α)
  | [x, y, z] => .ok (x, y, z)
  | _ => .error .wrongLength

def entry {κ : Type} [BEq κ] (table : List (κ × α)) (key : κ) : Except Fault α :=
  match table.lookup key with
  | some value => .ok value
  | none => .error .noEntry

def binding (store : Store) (place : FrameId) (name : String) : Except Fault Value :=
  match store.bound? place name with
  | some value => .ok value
  | none => .error .noEntry

/-- The quotient of two numbers, which faults for every zero divisor. -/
def quotient : Number → Number → Except Fault Number.Outcome
  | .real x, .real y => if y.isZero then .error .zeroDivisor else .ok (.ofOption (x.div? y))
  | .nan _, .real y => if y.isZero then .error .zeroDivisor else .ok .fresh
  | _, .nan _ => .ok .fresh

/-- The remainder of two numbers, which faults where two doubles have none. -/
def modulus : Number → Number → Except Fault Number.Outcome
  | .real x, .real y =>
    match x.rem? y with
    | some z => .ok (.real z)
    | none => .error .noRemainder
  | _, _ => .ok .fresh

/-! ## The evaluator over them -/

/-- Infinity with the sign of the dividend, times one with the sign of the divisor. -/
def signedInfinity (x y : Double) : Number.Outcome :=
  .ofOption ((Double.infinity x.negative).mul? { Double.ofNat 1 with negative := y.negative })

/-- Division, after a fault of the quotient too. -/
def divide (m n : Number) : Except Fault Number.Outcome :=
  match quotient m n with
  | .error .zeroDivisor =>
    match m, n with
    | .real x, .real y => .ok (if x.isZero then .shared else signedInfinity x y)
    | _, _ => .ok .shared
  | result => result

/-- Remainder, after a fault too. -/
def remainder (m n : Number) : Except Fault Number.Outcome :=
  match modulus m n with
  | .error .noRemainder => .ok .shared
  | result => result

def outcome : Arithmetic → Number → Number → Except Fault Number.Outcome
  | .div => divide
  | .rem => remainder
  | kind => fun m n => .ok (kind.outcome m n)

def lookup (place : FrameId) (name : String) : Attempt Value := do
  let frame ← of (Computation.find place name)
  risk (binding (← get) frame name)

/-- Runs a special form on operands in a frame, given how to evaluate there. -/
abbrev Handler := Nat → (Value → Attempt Value) → List Value → FrameId → Attempt Value

def expectOperands (form : SpecialForm) (operands : List Value) (count : Nat) : Attempt Unit :=
  if operands.length = count then pure () else fail (.operandCount form)

def quote : Handler := fun _ _ operands _ => do
  expectOperands .quotation operands 1
  risk (element operands 0)

def branch : Handler := fun room evaluate operands _ => do
  expectOperands .conditional operands 3
  let (test, consequent, alternative) ← risk (three operands)
  match ← evaluate test with
  | .boolean b => evaluate (if b then consequent else alternative)
  | other => of (refuse room other .testNotBoolean)

def bindHere : Handler := fun room evaluate operands place => do
  expectOperands .definition operands 2
  let (name, expression) ← risk (two operands)
  if SpecialForm.isSymbol name then do
    let value ← evaluate expression
    of (define room place name value)
    return Value.nothing
  else of (refuse room name .definedNotSymbol)

def rebind : Handler := fun room evaluate operands place => do
  expectOperands .assignment operands 2
  let (name, expression) ← risk (two operands)
  if SpecialForm.isSymbol name then do
    let value ← evaluate expression
    of (assign room place name value)
    return Value.nothing
  else of (refuse room name .assignedNotSymbol)

def close : Handler := fun room _ operands place => do
  expectOperands .abstraction operands 2
  let (parameters, body) ← risk (two operands)
  match parameters with
  | .list _ parameters =>
    match parameters.find? (!SpecialForm.isSymbol ·) with
    | some other => of (refuse room other .parameterNotSymbol)
    | none => return .closure (← of freshIdentity) parameters body place
  | other => of (refuse room other .parametersNotList)

def inSequence : Handler := fun _ evaluate operands _ =>
  if operands.isEmpty then fail (.operandCount .sequence)
  else do
    operands.dropLast.forM fun expression => discard (evaluate expression)
    evaluate (← risk (last operands))

def handlers : List (SpecialForm × Handler) :=
  [(.quotation, quote), (.conditional, branch), (.definition, bindHere), (.assignment, rebind),
    (.abstraction, close), (.sequence, inSequence)]

def runForm (room : Nat) (evaluate : Value → Attempt Value) (form : SpecialForm)
    (operands : List Value) (place : FrameId) : Attempt Value := do
  (← risk (entry handlers form)) room evaluate operands place

def expectArguments (operation : Primitive) (arguments : List Value) (count : Nat) : Attempt Unit :=
  if arguments.length = count then pure ()
  else fail (.argumentCount operation count arguments.length)

def unary (operation : Primitive) (arguments : List Value) (body : Value → Attempt α) :
    Attempt α := do
  expectArguments operation arguments 1
  body (← risk (element arguments 0))

def binary (operation : Primitive) (arguments : List Value) (body : Value → Value → Attempt α) :
    Attempt α := do
  expectArguments operation arguments 2
  body (← risk (element arguments 0)) (← risk (element arguments 1))

/-- Runs a primitive that takes its two arguments apart at once. -/
def pair (operation : Primitive) (arguments : List Value) (body : Value → Value → Attempt α) :
    Attempt α := do
  expectArguments operation arguments 2
  let (x, y) ← risk (two arguments)
  body x y

def perform (room : Nat) (apply : Value → List Value → Attempt Value)
    (applyEach : Value → List Value → Attempt (List Value))
    (operation : Primitive) (arguments : List Value) : Attempt Value :=
  match operation with
  | .arithmetic kind => binary operation arguments fun x y => do
    let (m, n) ← of (operation.expectNumbers room x y)
    return .number (← of (← risk (outcome kind m n)).toNumber)
  | .car => unary operation arguments fun x => do
    let items ← of (operation.expectList room x)
    if items.isEmpty then fail (.emptyList operation) else risk (element items 0)
  | .cdr => unary operation arguments fun x => do
    let items ← of (operation.expectList room x)
    if items.isEmpty then fail (.emptyList operation) else of (newList items.tail)
  | .cons => pair operation arguments fun x y => do
    of (newList (x :: (← of (operation.expectList room y))))
  | .map => pair operation arguments fun procedure xs => do
    of (newList (← applyEach procedure (← of (operation.expectList room xs))))
  | .apply => pair operation arguments fun procedure xs => do
    apply procedure (← of (operation.expectList room xs))
  | .comparison relation => binary operation arguments fun x y => do
    let (m, n) ← of (operation.expectNumbers room x y)
    return .boolean (relation.holds m n)
  | .append => binary operation arguments fun x y => do
    let front ← of (operation.expectList room x)
    let back ← of (operation.expectList room y)
    of (newList (front ++ back))
  | .identical => binary operation arguments fun x y => return .boolean (x.identical y)
  | .equal => binary operation arguments fun x y => do
    match x.sameWithin? room y with
    | some answer => return .boolean answer
    | none => fail .depthExceeded
  | .variant test => unary operation arguments fun x => return .boolean (x.isVariant test)
  | .length => unary operation arguments fun x => do
    return .number (.real (Double.ofNat (← of (operation.expectList room x)).length))
  | .not => unary operation arguments fun x => do
    return .boolean (!(← of (operation.expectBoolean room x)))
  | .list => of (newList arguments)

mutual

def evaluate (room : Nat) (expression : Value) (place : FrameId) : Attempt Value :=
  match room with
  | 0 => fail .depthExceeded
  | room + 1 =>
    match expression with
    | .symbol name => lookup place name
    | .list _ items =>
      if items.isEmpty then return expression
      else do
        let (head, operands) ← risk (behead items)
        match SpecialForm.ofHead? head with
        | some form => evaluateForm room form operands place
        | none => do
          let procedure ← evaluate room head place
          let arguments ← evaluateEach room operands place
          apply room procedure arguments place
    | value => return value
termination_by structural room

def evaluateEach (room : Nat) (expressions : List Value) (place : FrameId) :
    Attempt (List Value) :=
  match room with
  | 0 => fail .depthExceeded
  | room + 1 => expressions.mapM fun expression => evaluate room expression place
termination_by structural room

def evaluateForm (room : Nat) (form : SpecialForm) (operands : List Value) (place : FrameId) :
    Attempt Value :=
  match room with
  | 0 => fail .depthExceeded
  | room + 1 => runForm room (fun expression => evaluate room expression place) form operands place
termination_by structural room

def apply (room : Nat) (procedure : Value) (arguments : List Value) (place : FrameId) :
    Attempt Value :=
  match room with
  | 0 => fail .depthExceeded
  | room + 1 =>
    match procedure with
    | .closure _ parameters body scope => do
      evaluate room body (← of (bindParameters room parameters arguments (some scope)))
    | .primitive _ operation => runPrimitive room operation arguments place
    | other => of (refuse room other .notProcedure)
termination_by structural room

def runPrimitive (room : Nat) (operation : Primitive) (arguments : List Value) (place : FrameId) :
    Attempt Value :=
  match room with
  | 0 => fail .depthExceeded
  | room + 1 =>
    perform room (fun procedure arguments => apply room procedure arguments place)
      (fun procedure items => applyEach room procedure items place) operation arguments
termination_by structural room

def applyEach (room : Nat) (procedure : Value) (items : List Value) (place : FrameId) :
    Attempt (List Value) :=
  match room with
  | 0 => fail .depthExceeded
  | room + 1 => items.mapM fun item => apply room procedure [item] place
termination_by structural room

end

end Unchecked

end Lisplet
