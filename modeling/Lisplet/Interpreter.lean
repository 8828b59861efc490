import Lisplet.Datum.Reading
import Lisplet.Evaluation

/-!
# Interpreters

An interpreter owns a global frame, so that definitions last from one text to the next.
The forms of a text are evaluated one at a time; the first one that fails ends the run,
and what earlier ones did stays done.  A syntax error counts as a failure of the place
where it is: the forms before it are evaluated.
-/

namespace Lisplet

structure Interpreter where
  store : Store
  globals : FrameId
  /-- How deeply calls may be nested. -/
  limit : Nat

/-- How a run over the forms of a text came to its end. -/
inductive Ending where
  | finished
  | failed (failure : Failure)
  /-- The user broke off the evaluation. -/
  | interrupted
deriving Inhabited

/-- What a run over the forms of a text shows: the text of every form whose evaluation
began, what was made of every value, and the ending. -/
structure Transcript (α : Type) where
  begun : List String
  results : List α
  ending : Ending

/-- The value that a run ends with; a run over no forms has nothing to show. -/
def Transcript.lastValue (transcript : Transcript Value) : Except Failure Value :=
  match transcript.ending with
  | .failed failure => .error failure
  | _ => .ok (transcript.results.getLastD Value.nothing)

namespace Transcript

variable {α : Type}

def append (earlier later : Transcript α) : Transcript α :=
  ⟨earlier.begun ++ later.begun, earlier.results ++ later.results, later.ending⟩

/-- A run and, if it comes to its end, another one that starts from what it leaves. -/
def andThen (first : Transcript α × Interpreter)
    (later : Interpreter → Transcript α × Interpreter) : Transcript α × Interpreter :=
  match first.1.ending with
  | .finished => (first.1.append (later first.2).1, (later first.2).2)
  | _ => first

end Transcript

namespace Interpreter

/-- The room for nested calls unless the user asks for another. -/
def defaultLimit : Nat := 1000

/-- An interpreter whose global frame holds the primitives. -/
def create (limit : Nat) : Interpreter :=
  match Computation.newGlobalFrame limit Store.empty with
  | .ok globals store => ⟨store, globals, limit⟩
  | .error _ store => ⟨store, 0, limit⟩

def perform {α : Type} (interpreter : Interpreter) (computation : Computation α) :
    Except Failure α × Interpreter :=
  match computation interpreter.store with
  | .ok value store => (.ok value, { interpreter with store })
  | .error failure store => (.error failure, { interpreter with store })

def evaluateForm (interpreter : Interpreter) (form : Datum) : Except Failure Value × Interpreter :=
  interpreter.perform do
    evaluate interpreter.limit (← Computation.load form) interpreter.globals

/-- Evaluates forms in order and hands every value to `use`.  A form is written down
before it is evaluated; `breaksOff` tells at which forms the user interrupts. -/
def evaluateForms {α : Type} (use : Value → Except Failure α) (breaksOff : Datum → Bool) :
    List Datum → Option Failure → Interpreter → Transcript α × Interpreter
  | [], none, interpreter => (⟨[], [], .finished⟩, interpreter)
  | [], some failure, interpreter => (⟨[], [], .failed failure⟩, interpreter)
  | form :: forms, failure, interpreter =>
    match form.write interpreter.limit with
    | .error tooDeep => (⟨[], [], .failed tooDeep⟩, interpreter)
    | .ok written =>
      if breaksOff form then (⟨[written], [], .interrupted⟩, interpreter)
      else
        match interpreter.evaluateForm form with
        | (.error failed, interpreter) => (⟨[written], [], .failed failed⟩, interpreter)
        | (.ok value, interpreter) =>
          match use value with
          | .error failed => (⟨[written], [], .failed failed⟩, interpreter)
          | .ok result =>
            let (later, interpreter) := evaluateForms use breaksOff forms failure interpreter
            (⟨written :: later.begun, result :: later.results, later.ending⟩, interpreter)

def evaluateSource {α : Type} (interpreter : Interpreter) (use : Value → Except Failure α)
    (breaksOff : Datum → Bool) (source : Option String) : Transcript α × Interpreter :=
  let reading := readSource interpreter.limit source
  evaluateForms use breaksOff reading.forms reading.failure interpreter

def uninterrupted (_ : Datum) : Bool := false

def values (interpreter : Interpreter) (source : Option String) :
    Transcript Value × Interpreter :=
  interpreter.evaluateSource .ok uninterrupted source

/-- The value of the last form of a source text. -/
def eval (interpreter : Interpreter) (source : Option String) :
    Except Failure Value × Interpreter :=
  let (transcript, interpreter) := interpreter.values source
  (transcript.lastValue, interpreter)

/-- The text of the last value of a source text. -/
def evalText (interpreter : Interpreter) (source : Option String) :
    Except Failure String × Interpreter :=
  let (result, interpreter) := interpreter.eval source
  (result.bind (·.datum.write interpreter.limit), interpreter)

/-- The text of the value of every form of a source text, as far as the run gets. -/
def run (interpreter : Interpreter) (breaksOff : Datum → Bool) (source : Option String) :
    Transcript String × Interpreter :=
  let (transcript, after) :=
    interpreter.evaluateSource (·.datum.write interpreter.limit) breaksOff source
  ({ transcript with results := transcript.results.filter (!·.isEmpty) }, after)

end Interpreter

end Lisplet
