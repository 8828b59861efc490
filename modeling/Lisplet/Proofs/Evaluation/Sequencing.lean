import Lisplet.Interpreter
import Lisplet.Proofs.Evaluation.Discipline

/-!
# Runs in parts

A run over some forms is a run over the first of them, followed by a run over the others
if the first run came to its end.  Nothing but the interpreter passes from one part to
the next.
-/

namespace Lisplet

instance Ending.decidableFinished (ending : Ending) : Decidable (ending = .finished) :=
  match ending with
  | .finished => isTrue rfl
  | .failed _ => isFalse nofun
  | .interrupted => isFalse nofun

namespace Transcript

variable {α : Type}

theorem andThen_eq_append {first : Transcript α × Interpreter}
    (later : Interpreter → Transcript α × Interpreter) (hfirst : first.1.ending = .finished) :
    andThen first later = (first.1.append (later first.2).1, (later first.2).2) := by
  rw [andThen, hfirst]

/-- Behind a run that does not come to its end there is nothing. -/
theorem andThen_eq_first {first : Transcript α × Interpreter}
    (later : Interpreter → Transcript α × Interpreter) (hfirst : first.1.ending ≠ .finished) :
    andThen first later = first := by
  rw [andThen.eq_def]
  split
  · next hending => exact absurd hending hfirst
  · rfl

/-- What comes second matters only if the first run comes to its end. -/
theorem andThen_congr {first : Transcript α × Interpreter}
    {later other : Interpreter → Transcript α × Interpreter}
    (hlater : first.1.ending = .finished → later first.2 = other first.2) :
    andThen first later = andThen first other := by
  by_cases hfirst : first.1.ending = .finished
  · rw [andThen_eq_append later hfirst, andThen_eq_append other hfirst, hlater hfirst]
  · rw [andThen_eq_first later hfirst, andThen_eq_first other hfirst]

/-- Two runs together come to an end only if both do. -/
theorem andThen_of_finished {first : Transcript α × Interpreter}
    {later : Interpreter → Transcript α × Interpreter}
    (hfinished : (andThen first later).1.ending = .finished) :
    first.1.ending = .finished ∧
      andThen first later = (first.1.append (later first.2).1, (later first.2).2) := by
  by_cases hfirst : first.1.ending = .finished
  · exact ⟨hfirst, andThen_eq_append later hfirst⟩
  · rw [andThen_eq_first later hfirst] at hfinished
    exact absurd hfinished hfirst

end Transcript

namespace Interpreter

variable {α : Type} {use : Value → Except Failure α} {breaksOff : Datum → Bool}

/-- Forms after the first part are evaluated only if the first part came to its end. -/
theorem evaluateForms_append (use : Value → Except Failure α) (breaksOff : Datum → Bool)
    (first later : List Datum) (failure : Option Failure)
    (interpreter : Interpreter) :
    evaluateForms use breaksOff (first ++ later) failure interpreter =
      Transcript.andThen (evaluateForms use breaksOff first none interpreter)
        (evaluateForms use breaksOff later failure) := by
  induction first generalizing interpreter with
  | nil => rfl
  | cons form first ih =>
      rw [List.cons_append, evaluateForms.eq_def, evaluateForms.eq_def]
      dsimp only
      split
      · rfl
      · split
        · rfl
        · split
          · rfl
          · split
            · rfl
            · rw [ih]
              generalize evaluateForms use breaksOff first none _ = run
              obtain ⟨⟨begun, results, ending⟩, middle⟩ := run
              cases ending <;> rfl

/-- A run that comes to its end came to the end of the forms, so nothing was left that
could not be read. -/
theorem failure_eq_none_of_finished {forms : List Datum} {failure : Option Failure}
    {interpreter : Interpreter}
    (hfinished : (evaluateForms use breaksOff forms failure interpreter).1.ending = .finished) :
    failure = none := by
  have hparts := evaluateForms_append use breaksOff forms [] failure interpreter
  rw [List.append_nil] at hparts
  rw [hparts] at hfinished
  rw [(Transcript.andThen_of_finished hfinished).2] at hfinished
  cases failure with
  | none => rfl
  | some failure => cases hfinished

/-- The interpreter after a form was loaded, and what it was loaded as. -/
def loading (interpreter : Interpreter) (form : Datum) : Value × Interpreter :=
  let loaded := form.load interpreter.store.nextIdentity
  (loaded.1, { interpreter with store := Discipline.renumbered interpreter.store loaded.2 })

/-- A form is loaded and then evaluated in the global frame. -/
theorem evaluateForm_eq (interpreter : Interpreter) (form : Datum) :
    interpreter.evaluateForm form = (interpreter.loading form).2.perform
      (evaluate interpreter.limit (interpreter.loading form).1 interpreter.globals) := by
  have hload : Computation.load form interpreter.store =
      .ok (interpreter.loading form).1 (interpreter.loading form).2.store := rfl
  rw [evaluateForm, perform, perform, Computation.bind_of_ok hload]
  rfl

@[simp]
theorem limit_perform {interpreter : Interpreter} (computation : Computation α) :
    (interpreter.perform computation).2.limit = interpreter.limit := by
  rw [perform]
  split <;> rfl

@[simp]
theorem globals_perform {interpreter : Interpreter} (computation : Computation α) :
    (interpreter.perform computation).2.globals = interpreter.globals := by
  rw [perform]
  split <;> rfl

/-- What the evaluation of every form preserves, a run over forms preserves. -/
theorem evaluateForms_induction {property : Interpreter → Prop}
    (hstep : ∀ interpreter form, property interpreter → property (interpreter.evaluateForm form).2)
    (forms : List Datum) (failure : Option Failure) {interpreter : Interpreter}
    (h : property interpreter) :
    property (evaluateForms use breaksOff forms failure interpreter).2 := by
  induction forms generalizing interpreter with
  | nil => cases failure <;> exact h
  | cons form forms ih =>
      have hafter := hstep interpreter form h
      rw [evaluateForms.eq_def]
      dsimp only
      split
      · exact h
      · split
        · exact h
        · split
          · next heval =>
              rw [heval] at hafter
              exact hafter
          · next heval =>
              rw [heval] at hafter
              split
              · exact hafter
              · exact ih hafter

/-- A run never changes the room for nested calls. -/
theorem limit_evaluateForms (use : Value → Except Failure α) (breaksOff : Datum → Bool)
    (forms : List Datum) (failure : Option Failure) (interpreter : Interpreter) :
    (evaluateForms use breaksOff forms failure interpreter).2.limit = interpreter.limit :=
  evaluateForms_induction (fun before form (h : before.limit = interpreter.limit) =>
    show (before.evaluateForm form).2.limit = interpreter.limit from (limit_perform _).trans h)
    forms failure rfl

/-- Evaluates forms and keeps the texts of their values, those that are not empty. -/
def runForms (interpreter : Interpreter) (breaksOff : Datum → Bool) (forms : List Datum)
    (failure : Option Failure) : Transcript String × Interpreter :=
  let run := evaluateForms (·.datum.write interpreter.limit) breaksOff forms failure interpreter
  ({ run.1 with results := run.1.results.filter (!·.isEmpty) }, run.2)

theorem run_eq_runForms (interpreter : Interpreter) (breaksOff : Datum → Bool)
    (source : Option String) :
    interpreter.run breaksOff source =
      interpreter.runForms breaksOff (readSource interpreter.limit source).forms
        (readSource interpreter.limit source).failure := rfl

theorem limit_runForms (interpreter : Interpreter) (breaksOff : Datum → Bool)
    (forms : List Datum) (failure : Option Failure) :
    (interpreter.runForms breaksOff forms failure).2.limit = interpreter.limit :=
  limit_evaluateForms _ breaksOff forms failure interpreter

theorem runForms_append (interpreter : Interpreter) (breaksOff : Datum → Bool)
    (first later : List Datum) (failure : Option Failure) :
    interpreter.runForms breaksOff (first ++ later) failure =
      Transcript.andThen (interpreter.runForms breaksOff first none)
        (·.runForms breaksOff later failure) := by
  have hlimit := limit_evaluateForms (·.datum.write interpreter.limit) breaksOff first none
    interpreter
  simp only [runForms]
  rw [evaluateForms_append]
  generalize evaluateForms _ _ first none interpreter = run at hlimit
  obtain ⟨⟨begun, results, ending⟩, middle⟩ := run
  cases ending with
  | finished => simp [Transcript.andThen, Transcript.append, show middle.limit = _ from hlimit]
  | failed | interrupted => rfl

end Interpreter

end Lisplet
