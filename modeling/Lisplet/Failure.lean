import Lisplet.Datum.Basic
import Lisplet.Primitive
import Lisplet.SpecialForm

/-!
# Failures

Everything that can go wrong when a text is read or a form is evaluated, by its cause.
The wording is in one place; a cause carries the datum that the wording shows.
-/

namespace Lisplet

/-- The families that failures are reported under. -/
inductive FailureKind where
  | wrongText
  | unboundName
  | wrongCount
  | wrongVariant
  | tooDeep
deriving DecidableEq

namespace FailureKind

def label : FailureKind → String
  | wrongText => "LispSyntaxError"
  | unboundName => "LispUnboundSymbol"
  | wrongCount => "LispArityError"
  | wrongVariant => "LispTypeError"
  | tooDeep => "RecursionError"

end FailureKind

inductive Failure where
  /-- There is no source text at all. -/
  | noCode
  /-- The text ends inside a list, or before any form. -/
  | unexpectedEnd
  /-- A closing parenthesis that closes nothing. -/
  | unexpectedClose
  | unbound (name : String)
  /-- A special form with a wrong number of operands. -/
  | operandCount (form : SpecialForm)
  /-- A primitive called with a wrong number of arguments. -/
  | argumentCount (primitive : Primitive) (expected given : Nat)
  /-- A closure called with a wrong number of arguments. -/
  | parameterCount (expected given : Nat) (parameters : Datum)
  | expectedNumber (primitive : Primitive) (got : Datum)
  | expectedList (primitive : Primitive) (got : Datum)
  | expectedBoolean (primitive : Primitive) (got : Datum)
  /-- The first element, or the rest, of a list without elements. -/
  | emptyList (primitive : Primitive)
  | testNotBoolean (got : Datum)
  | definedNotSymbol (got : Datum)
  | assignedNotSymbol (got : Datum)
  | parametersNotList (got : Datum)
  | parameterNotSymbol (got : Datum)
  | notProcedure (got : Datum)
  /-- A closure whose parameter list holds something else than a symbol is called. -/
  | boundNotSymbol (got : Datum)
  /-- A frame is asked to define something else than a symbol. -/
  | cannotDefine (got : Datum)
  /-- A frame is asked to assign something else than a symbol. -/
  | cannotAssign (got : Datum)
  /-- The calls are nested too deeply. -/
  | depthExceeded
deriving Inhabited

namespace Failure

def kind : Failure → FailureKind
  | noCode | unexpectedEnd | unexpectedClose => .wrongText
  | unbound _ => .unboundName
  | operandCount _ | argumentCount .. | parameterCount .. => .wrongCount
  | expectedNumber .. | expectedList .. | expectedBoolean .. | emptyList _ | testNotBoolean _
  | definedNotSymbol _ | assignedNotSymbol _ | parametersNotList _ | parameterNotSymbol _
  | notProcedure _ | boundNotSymbol _ | cannotDefine _ | cannotAssign _ => .wrongVariant
  | depthExceeded => .tooDeep

/-- What a special form asks for when it has a wrong number of operands. -/
def operandRule : SpecialForm → String
  | .quotation => "quote requires exactly 1 argument"
  | .conditional => "if requires a test, a consequent and an alternative"
  | .definition => "define requires exactly 2 arguments"
  | .assignment => "set! requires exactly 2 arguments: (set! var value)"
  | .abstraction => "lambda requires a parameter list and a body"
  | .sequence => "begin requires at least 1 expression"

def message : Failure → String
  | noCode => "no code"
  | unexpectedEnd => "unexpected EOF while reading"
  | unexpectedClose => "unexpected ')'"
  | unbound name => "Unbound symbol " ++ name
  | operandCount form => operandRule form
  | argumentCount primitive expected given =>
    primitive.name ++ " requires exactly " ++ toString expected ++
      (if expected = 1 then " argument" else " arguments") ++ ", got " ++ toString given
  | parameterCount expected given parameters =>
    "Expected " ++ toString expected ++ " argument(s), got " ++ toString given ++ ": " ++
      parameters.text
  | expectedNumber primitive got => primitive.name ++ " expects a number, got " ++ got.nestedText
  | expectedList primitive got => primitive.name ++ " expects a list, got " ++ got.nestedText
  | expectedBoolean primitive got => primitive.name ++ " expects a boolean, got " ++ got.nestedText
  | emptyList primitive => primitive.name ++ " of empty list"
  | testNotBoolean got => "if test must be a boolean, got " ++ got.nestedText
  | definedNotSymbol got => "define first argument must be a symbol, got " ++ got.nestedText
  | assignedNotSymbol got => "set! first argument must be a symbol, got " ++ got.nestedText
  | parametersNotList got => "lambda parameters must be a list, got " ++ got.nestedText
  | parameterNotSymbol got => "lambda parameter must be a symbol, got " ++ got.nestedText
  | notProcedure got => "Cannot apply non-procedure " ++ got.nestedText
  | boundNotSymbol got => "Parameter must be a symbol, got " ++ got.text
  | cannotDefine got => "Cannot define " ++ got.text ++ " as a symbol"
  | cannotAssign got => "Cannot set " ++ got.text ++ ": not a symbol"
  | depthExceeded => "maximum recursion depth exceeded"

def report (failure : Failure) : String := failure.kind.label ++ ": " ++ failure.message

end Failure

/-- The text of a datum, unless writing it nests more calls than there is room for. -/
def Datum.write (room : Nat) (d : Datum) : Except Failure String :=
  if d.writingDepth ≤ room then .ok d.text else .error .depthExceeded

end Lisplet
