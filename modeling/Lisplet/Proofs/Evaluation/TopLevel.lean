import Lisplet.Proofs.Evaluation.Frames
import Lisplet.Proofs.Evaluation.Sequencing

/-!
# Definitions at the top level

A definition that is evaluated without failure has bound a name in its frame: to the value
of its expression, which is a closure over that frame if the expression is an abstraction.
No later form takes the name away again.
-/

namespace Lisplet

/-! ## Evaluations that succeed -/

section Succeeding

variable {α β : Type} {room : Nat} {place : FrameId} {s t : Store} {v : Value}

theorem Computation.exists_of_bind_ok {first : Computation α} {later : α → Computation β}
    {answer : β} (h : (first >>= later) s = .ok answer t) :
    ∃ middle u, first s = .ok middle u ∧ later middle u = .ok answer t := by
  cases hfirst : first s with
  | ok middle u => exact ⟨middle, u, rfl, (Computation.bind_of_ok hfirst).symm.trans h⟩
  | error failure u =>
      rw [Computation.bind_of_error hfirst] at h
      cases h

/-- A special form has been run on the operands. -/
theorem run_of_evaluate_ok {identity : Identity} {head : Value} {operands : List Value}
    {form : SpecialForm} (hhead : SpecialForm.ofHead? head = some form)
    (h : evaluate room (.list identity (head :: operands)) place s = .ok v t) :
    ∃ less, form.run less (evaluate less · place) operands place s = .ok v t := by
  cases room with
  | zero => cases h
  | succ room =>
      rw [evaluate] at h
      simp only [hhead] at h
      cases room with
      | zero => cases h
      | succ room =>
          rw [evaluateForm] at h
          exact ⟨room, h⟩

/-- A definition has bound a name to the value of an expression. -/
theorem define_of_evaluate_ok {identity : Identity} {head : Value} {operands : List Value}
    (hhead : SpecialForm.ofHead? head = some .definition)
    (h : evaluate room (.list identity (head :: operands)) place s = .ok v t) :
    ∃ name expression value less u, operands = [.symbol name, expression] ∧
      evaluate less expression place s = .ok value u ∧ t = u.define place name value := by
  obtain ⟨less, hrun⟩ := run_of_evaluate_ok hhead h
  change SpecialForm.bindHere less (evaluate less · place) operands place s = .ok v t at hrun
  rw [SpecialForm.bindHere.eq_def] at hrun
  split at hrun
  · next name expression =>
      split at hrun
      · next name =>
          obtain ⟨value, u, hvalue, hlater⟩ := Computation.exists_of_bind_ok hrun
          cases hlater
          exact ⟨name, expression, value, less, u, rfl, hvalue, rfl⟩
      · rw [Computation.refuse] at hrun
        cases hrun
  · cases hrun

/-- An abstraction has become a closure over its frame, and its parameters are symbols. -/
theorem closure_of_evaluate_ok {identity : Identity} {head : Value} {operands : List Value}
    (hhead : SpecialForm.ofHead? head = some .abstraction)
    (h : evaluate room (.list identity (head :: operands)) place s = .ok v t) :
    ∃ inner parameters body fresh, operands = [.list inner parameters, body] ∧
      (∀ parameter ∈ parameters, SpecialForm.isSymbol parameter = true) ∧
      v = .closure fresh parameters body place := by
  obtain ⟨less, hrun⟩ := run_of_evaluate_ok hhead h
  change SpecialForm.close less operands place s = .ok v t at hrun
  rw [SpecialForm.close.eq_def] at hrun
  split at hrun
  · next parameters body =>
      split at hrun
      · next inner parameters =>
          cases hother : parameters.find? (!SpecialForm.isSymbol ·) with
          | some other =>
              simp only [hother, Computation.refuse] at hrun
              cases hrun
          | none =>
              simp only [hother] at hrun
              cases hrun
              exact ⟨inner, parameters, body, _, rfl, by simpa using hother, rfl⟩
      · rw [Computation.refuse] at hrun
        cases hrun
  · cases hrun

end Succeeding

/-! ## Bindings are not lost -/

theorem Bindings.isSome_get?_iff (bindings : Bindings) (name : String) :
    (bindings.get? name).isSome ↔ name ∈ bindings.names := by
  induction bindings with
  | nil => simp [get?, names]
  | cons entry bindings ih =>
      obtain ⟨key, old⟩ := entry
      rw [get?_cons, names, List.map_cons, List.mem_cons]
      by_cases hname : name = key
      · simp [hname]
      · rw [if_neg hname, ih]
        exact (or_iff_right hname).symm

theorem Store.Extends.isSome_bound? {s t : Store} (h : s.Extends t) {place : FrameId}
    {name : String} (hbound : (s.bound? place name).isSome) : (t.bound? place name).isSome := by
  obtain ⟨v, hv⟩ := Option.isSome_iff_exists.mp hbound
  obtain ⟨frame, hframe, hget⟩ := Option.bind_eq_some_iff.mp hv
  obtain ⟨later, hlater, -, hnames⟩ := h place frame hframe
  have hmem : name ∈ frame.bindings.names := by
    rw [← Bindings.isSome_get?_iff, hget]
    rfl
  rw [bound?, hlater, Option.bind_some, Bindings.isSome_get?_iff]
  exact hnames.subset hmem

namespace Discipline

def extending : Discipline := { unrestricted with grows := Store.Extends }

theorem lawful_extending : extending.Lawful :=
  { lawful_unrestricted with
    grows_refl := Store.Extends.refl
    grows_trans := Store.Extends.trans
    value_mono := fun _ _ => trivial
    frame_mono := fun _ _ => trivial
    code_mono := fun _ _ => trivial
    renumber := fun _ _ => ⟨trivial, Store.Extends.refl _⟩
    define := fun _ _ _ => ⟨trivial, Store.extends_define _ _ _ _⟩
    assign := by
      intro s t _ _ _ _ _ _ _ _ _ _ _ hassigned
      obtain ⟨target, -, rfl⟩ := Store.exists_define_of_assign? hassigned
      exact ⟨trivial, Store.extends_define _ _ _ _⟩
    call := fun _ _ _ _ => ⟨trivial, Store.extends_allocate _ _, trivial, trivial⟩ }

end Discipline

theorem Store.extends_after_evaluate (s : Store) (room : Nat) (v : Value) (place : FrameId) :
    s.Extends ((evaluate room v place).after s) :=
  (Discipline.keeps_evaluate Discipline.lawful_extending trivial trivial trivial).after.2

theorem Store.extends_of_evaluate_ok {s t : Store} {room : Nat} {v answer : Value}
    {place : FrameId} (h : evaluate room v place s = .ok answer t) : s.Extends t :=
  Computation.after_of_ok h ▸ s.extends_after_evaluate room v place

/-! ## Runs that come to their end -/

namespace Interpreter

def afterForms (interpreter : Interpreter) (forms : List Datum) : Interpreter :=
  (evaluateForms .ok uninterrupted forms none interpreter).2

/-- A form that is evaluated without failure, as an evaluation in the store. -/
theorem exists_of_evaluateForm_ok {interpreter : Interpreter} {form : Datum} {v : Value}
    (h : (interpreter.evaluateForm form).1 = .ok v) :
    ∃ t, evaluate interpreter.limit (interpreter.loading form).1 interpreter.globals
        (interpreter.loading form).2.store = .ok v t ∧
      (interpreter.evaluateForm form).2.store = t := by
  rw [evaluateForm_eq, perform] at h
  rw [evaluateForm_eq, store_perform]
  split at h
  · next t heval =>
      cases h
      exact ⟨t, heval, Computation.after_of_ok heval⟩
  · cases h

def Completes (interpreter : Interpreter) (forms : List Datum) : Prop :=
  (evaluateForms .ok uninterrupted forms none interpreter).1.ending = .finished

variable {interpreter : Interpreter}

@[simp]
theorem globals_afterForms (interpreter : Interpreter) (forms : List Datum) :
    (interpreter.afterForms forms).globals = interpreter.globals :=
  evaluateForms_induction (fun before form (h : before.globals = interpreter.globals) =>
    show (before.evaluateForm form).2.globals = interpreter.globals from
      (globals_perform _).trans h)
    forms none rfl

/-- Any run extends the store. -/
theorem extends_afterForms (interpreter : Interpreter) (forms : List Datum) :
    interpreter.store.Extends (interpreter.afterForms forms).store := by
  have hstep (before : Interpreter) (form : Datum)
      (h : interpreter.store.Extends before.store) :
      interpreter.store.Extends (before.evaluateForm form).2.store := by
    rw [evaluateForm_eq, store_perform]
    exact h.trans (Store.extends_after_evaluate (before.loading form).2.store _ _ _)
  exact evaluateForms_induction hstep forms none (Store.Extends.refl _)

theorem Completes.of_append {first later : List Datum}
    (h : interpreter.Completes (first ++ later)) :
    interpreter.Completes first ∧ (interpreter.afterForms first).Completes later ∧
      interpreter.afterForms (first ++ later) =
        (interpreter.afterForms first).afterForms later := by
  rw [Completes, evaluateForms_append] at h
  obtain ⟨hfirst, hboth⟩ := Transcript.andThen_of_finished h
  rw [hboth] at h
  refine ⟨hfirst, h, ?_⟩
  rw [afterForms, evaluateForms_append, hboth]
  rfl

theorem Completes.of_singleton {form : Datum} (h : interpreter.Completes [form]) :
    (∃ v, (interpreter.evaluateForm form).1 = .ok v) ∧
      interpreter.afterForms [form] = (interpreter.evaluateForm form).2 := by
  rw [Completes, evaluateForms.eq_def] at h
  rw [afterForms, evaluateForms.eq_def]
  dsimp only at h ⊢
  split at h
  · cases h
  · split at h
    · cases h
    · next huninterrupted =>
        rw [if_neg huninterrupted]
        split at h
        · cases h
        · next v after heval =>
            rw [heval]
            exact ⟨⟨v, rfl⟩, rfl⟩

theorem ending_ne_interrupted {α : Type} (use : Value → Except Failure α) (forms : List Datum)
    (failure : Option Failure) (interpreter : Interpreter) :
    (evaluateForms use uninterrupted forms failure interpreter).1.ending ≠ .interrupted := by
  intro hending
  induction forms generalizing interpreter with
  | nil => cases failure <;> cases hending
  | cons form forms ih =>
      rw [evaluateForms.eq_def] at hending
      dsimp only at hending
      split at hending
      · cases hending
      · rw [if_neg (show ¬ uninterrupted form = true from Bool.false_ne_true)] at hending
        split at hending
        · cases hending
        · split at hending
          · cases hending
          · exact ih _ hending

/-- A text that is evaluated without failure has been read, and its forms evaluated, to the
end. -/
theorem completes_of_eval_ok {source : Option String} {v : Value}
    (heval : (interpreter.eval source).1 = .ok v) :
    (readSource interpreter.limit source).failure = none ∧
      interpreter.Completes (readSource interpreter.limit source).forms ∧
      (interpreter.eval source).2 =
        interpreter.afterForms (readSource interpreter.limit source).forms := by
  change (interpreter.values source).1.lastValue = .ok v at heval
  have hfinished : (interpreter.values source).1.ending = .finished := by
    cases hending : (interpreter.values source).1.ending with
    | finished => rfl
    | interrupted => exact absurd hending (ending_ne_interrupted _ _ _ _)
    | failed failure =>
        rw [Transcript.lastValue, hending] at heval
        cases heval
  have hfailure := failure_eq_none_of_finished hfinished
  change (evaluateForms .ok uninterrupted _ _ interpreter).1.ending = _ at hfinished
  rw [hfailure] at hfinished
  refine ⟨hfailure, hfinished, ?_⟩
  change (evaluateForms .ok uninterrupted _ _ interpreter).2 = _
  rw [hfailure]
  rfl

end Interpreter

end Lisplet
