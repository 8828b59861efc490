import Lisplet.Interpreter
import Lisplet.Proofs.Evaluation.Bindings
import Lisplet.Proofs.Evaluation.Preservation

/-!
# Sessions keep every lawful discipline

A new interpreter keeps a discipline that allows an empty frame and the primitives.
From there every text whose forms may be evaluated leaves an interpreter that keeps it,
however the run over the text ends.
-/

namespace Lisplet

namespace Computation

variable {s : Store}

/-- A new global frame is a new frame in which the primitives are bound. -/
theorem after_newGlobalFrame (room : Nat) :
    (newGlobalFrame room).after s =
      (registerPrimitives room s.frames.size).after (Discipline.extended s [] none) := by
  have hframe : newFrame none s = .ok s.frames.size (Discipline.extended s [] none) := rfl
  rw [after, newGlobalFrame, bind_of_ok hframe, after]
  cases hregister : registerPrimitives room s.frames.size (Discipline.extended s [] none) with
  | ok answer t => rw [bind_of_ok hregister]; rfl
  | error failure t => rw [bind_of_error hregister]

theorem place_of_newGlobalFrame {room : Nat} {place : FrameId} {t : Store}
    (h : newGlobalFrame room s = .ok place t) : place = s.frames.size := by
  have hframe : newFrame none s = .ok s.frames.size (Discipline.extended s [] none) := rfl
  rw [newGlobalFrame, bind_of_ok hframe] at h
  cases hregister : registerPrimitives room s.frames.size (Discipline.extended s [] none) with
  | ok answer u =>
      rw [bind_of_ok hregister] at h
      cases h
      rfl
  | error failure u =>
      rw [bind_of_error hregister] at h
      cases h

end Computation

namespace Discipline

variable {D : Discipline} {s : Store}

/-- What a discipline allows before any text is run. -/
structure Founded (D : Discipline) : Prop where
  global : ∀ {s}, D.store s →
    D.store (extended s [] none) ∧ D.grows s (extended s [] none) ∧
      D.frame (extended s [] none) s.frames.size
  primitive : ∀ s identity operation, D.value s (.primitive identity operation)

/-- The forms that may be evaluated, whatever store they are loaded into. -/
def form (D : Discipline) (d : Datum) : Prop :=
  ∀ s, D.store s →
    D.code (renumbered s (d.load s.nextIdentity).2) (d.load s.nextIdentity).1

/-- What a reading gives may be evaluated, and its failure may arise. -/
structure Readable (D : Discipline) (reading : Reading) : Prop where
  forms : ∀ form ∈ reading.forms, D.form form
  failure : ∀ cause, reading.failure = some cause → D.failure cause

/-! ## A new interpreter -/

def pair (D : Discipline) (s : Store) (entry : Value × Value) : Prop :=
  (∃ name, entry.1 = .symbol name) ∧ D.value s entry.2

theorem pair_mono (hD : D.Lawful) {t : Store} {entry : Value × Value} (hgrows : D.grows s t)
    (hentry : D.pair s entry) : D.pair t entry :=
  ⟨hentry.1, hD.value_mono hgrows hentry.2⟩

theorem Keeps.defineEach (hD : D.Lawful) (room : Nat) {place : FrameId}
    {pairs : List (Value × Value)} (hs : D.store s) (hplace : D.frame s place)
    (hpairs : ∀ entry ∈ pairs, D.pair s entry) :
    D.Keeps (fun _ _ => True)
      (pairs.forM fun entry => Computation.define room place entry.1 entry.2) s := by
  induction pairs generalizing s with
  | nil => exact Keeps.pure hD hs trivial
  | cons entry pairs ih =>
      obtain ⟨⟨⟨name, hname⟩, hvalue⟩, hrest⟩ := List.forall_mem_cons.mp hpairs
      rw [List.forM_eq_forM, List.forM_cons, hname]
      apply Keeps.bind hD (Keeps.define hD hs hplace name hvalue)
      intro t _ ht hgrows _
      apply ih ht (hD.frame_mono hgrows hplace)
      intro other hother
      exact pair_mono hD hgrows (hrest other hother)

theorem Keeps.defineAll (hD : D.Lawful) (room : Nat) {place : FrameId}
    {pairs : List (Value × Value)} (hs : D.store s) (hplace : D.frame s place)
    (hpairs : ∀ entry ∈ pairs, D.pair s entry) :
    D.Keeps (fun _ _ => True) (Computation.defineAll room place pairs) s :=
  Keeps.defineEach hD room hs hplace (Computation.forall_mem_foldl_mergePair hpairs (by simp)
    fun _ _ hpair hother => ⟨hother.1, hpair.2⟩)

theorem Keeps.registerPrimitives (hD : D.Lawful) (hF : D.Founded) (room : Nat) {place : FrameId}
    (hs : D.store s) (hplace : D.frame s place) :
    D.Keeps (fun _ _ => True) (Computation.registerPrimitives room place) s := by
  have hpair (operation : Primitive) (_ : operation ∈ Primitive.all) (t : Store)
      (ht : D.store t) (_ : D.grows s t) : D.Keeps D.pair (do
        return (.symbol operation.name,
          .primitive (← Computation.freshIdentity) operation)) t := by
    apply Keeps.bind hD (Keeps.freshIdentity hD ht)
    intro u identity hu _ _
    exact Keeps.pure hD hu ⟨⟨_, rfl⟩, hF.primitive u identity operation⟩
  rw [Computation.registerPrimitives]
  apply Keeps.bind hD (Keeps.mapM hD hs hpair (pair_mono hD))
  intro t pairs ht hgrows hpairs
  exact Keeps.defineAll hD room ht (hD.frame_mono hgrows hplace) hpairs

/-- The global frame is there even if the primitives could not all be bound. -/
theorem newGlobalFrame (hD : D.Lawful) (hF : D.Founded) (room : Nat) (hs : D.store s) :
    D.store ((Computation.newGlobalFrame room).after s) ∧
      D.frame ((Computation.newGlobalFrame room).after s) s.frames.size := by
  obtain ⟨hstore, -, hframe⟩ := hF.global hs
  obtain ⟨hafter, hgrows⟩ := (Keeps.registerPrimitives hD hF room hstore hframe).after
  rw [Computation.after_newGlobalFrame]
  exact ⟨hafter, hD.frame_mono hgrows hframe⟩

end Discipline

def Ending.failure? : Ending → Option Failure
  | .failed failure => some failure
  | _ => none

namespace Interpreter

structure Keeps (interpreter : Interpreter) (D : Discipline) : Prop where
  store : D.store interpreter.store
  globals : D.frame interpreter.store interpreter.globals

variable {D : Discipline}

theorem keeps_create (hD : D.Lawful) (hF : D.Founded) (hempty : D.store Store.empty)
    (limit : Nat) : (create limit).Keeps D := by
  obtain ⟨hstore, hglobals⟩ := Discipline.newGlobalFrame hD hF limit hempty
  rw [create]
  cases hcase : Computation.newGlobalFrame limit Store.empty with
  | ok globals store =>
      rw [Computation.after_of_ok hcase] at hstore hglobals
      exact ⟨hstore, Computation.place_of_newGlobalFrame hcase ▸ hglobals⟩
  | error failure store =>
      rw [Computation.after_of_error hcase] at hstore hglobals
      exact ⟨hstore, hglobals⟩

/-- What an action owes to a discipline: the interpreter after it differs only in its
store, which the discipline allows, and the failure it ended with, if it failed, may
arise. -/
structure Obeys (D : Discipline) (before after : Interpreter) (failure : Option Failure) :
    Prop where
  keeps : after.Keeps D
  grows : D.grows before.store after.store
  globals : after.globals = before.globals
  limit : after.limit = before.limit
  failure : ∀ cause, failure = some cause → D.failure cause

theorem Obeys.refl (hD : D.Lawful) {interpreter : Interpreter} {failure : Option Failure}
    (hkeeps : interpreter.Keeps D)
    (hfailure : ∀ cause, failure = some cause → D.failure cause) :
    Obeys D interpreter interpreter failure :=
  ⟨hkeeps, hD.grows_refl _, rfl, rfl, hfailure⟩

theorem Obeys.trans (hD : D.Lawful) {before middle after : Interpreter}
    {earlier failure : Option Failure} (hfirst : Obeys D before middle earlier)
    (hlater : Obeys D middle after failure) : Obeys D before after failure :=
  ⟨hlater.keeps, hD.grows_trans hfirst.grows hlater.grows, hlater.globals.trans hfirst.globals,
    hlater.limit.trans hfirst.limit, hlater.failure⟩

theorem Obeys.fail {before after : Interpreter} {earlier : Option Failure}
    (h : Obeys D before after earlier) {failure : Failure} (hfailure : D.failure failure) :
    Obeys D before after (some failure) :=
  ⟨h.keeps, h.grows, h.globals, h.limit, fun _ hcause => Option.some.inj hcause ▸ hfailure⟩

def failureOf? {α : Type} : Except Failure α → Option Failure
  | .error failure => some failure
  | .ok _ => none

theorem obeys_perform (hD : D.Lawful) {α : Type} {expected : Store → α → Prop}
    {computation : Computation α} {interpreter : Interpreter} (hkeeps : interpreter.Keeps D)
    (hrun : D.Keeps expected computation interpreter.store) :
    Obeys D interpreter (interpreter.perform computation).2
      (failureOf? (interpreter.perform computation).1) := by
  rw [perform]
  cases hcase : computation interpreter.store with
  | ok answer t =>
      obtain ⟨ht, hgrows, -⟩ := hrun.ok hcase
      exact ⟨⟨ht, hD.frame_mono hgrows hkeeps.globals⟩, hgrows, rfl, rfl,
        by simp [failureOf?]⟩
  | error failure t =>
      obtain ⟨ht, hgrows, hfailure⟩ := hrun.error hcase
      refine ⟨⟨ht, hD.frame_mono hgrows hkeeps.globals⟩, hgrows, rfl, rfl, ?_⟩
      rintro cause ⟨⟩
      exact hfailure

/-- Loading a form and evaluating it in the global frame keeps a discipline. -/
theorem keeps_evaluateForm (hD : D.Lawful) {interpreter : Interpreter}
    (hkeeps : interpreter.Keeps D) {form : Datum} (hform : D.form form) :
    D.Keeps D.value (do
      evaluate interpreter.limit (← Computation.load form) interpreter.globals)
      interpreter.store := by
  have hrenumber := hD.renumber (form.le_load interpreter.store.nextIdentity) hkeeps.store
  have hload : D.Keeps D.code (Computation.load form) interpreter.store :=
    .of_ok rfl hrenumber (hform interpreter.store hkeeps.store)
  apply Discipline.Keeps.bind hD hload
  intro t v ht hgrows hv
  exact Discipline.keeps_evaluate hD ht (hD.frame_mono hgrows hkeeps.globals) hv

theorem obeys_evaluateForm (hD : D.Lawful) {interpreter : Interpreter}
    (hkeeps : interpreter.Keeps D) {form : Datum} (hform : D.form form) :
    Obeys D interpreter (interpreter.evaluateForm form).2
      (failureOf? (interpreter.evaluateForm form).1) :=
  obeys_perform hD hkeeps (keeps_evaluateForm hD hkeeps hform)

/-- The value of a form is allowed. -/
theorem value_of_evaluateForm (hD : D.Lawful) {interpreter : Interpreter}
    (hkeeps : interpreter.Keeps D) {form : Datum} (hform : D.form form) {v : Value}
    (h : (interpreter.evaluateForm form).1 = .ok v) :
    D.value (interpreter.evaluateForm form).2.store v := by
  have hrun := keeps_evaluateForm hD hkeeps hform
  rw [evaluateForm, perform] at h ⊢
  split at h
  · next answer t hcase =>
      cases h
      exact (hrun.ok hcase).2.2
  · cases h

/-- There may be no room to write a datum down. -/
theorem failure_of_write (hD : D.Lawful) {d : Datum} {room : Nat} {failure : Failure}
    (hwrite : d.write room = .error failure) : D.failure failure := by
  rw [Datum.write] at hwrite
  split at hwrite
  · cases hwrite
  · cases hwrite
    exact hD.ordinary trivial

/-- The forms are evaluated one after the other, each in what the one before left. -/
theorem obeys_evaluateForms (hD : D.Lawful) {α : Type} {use : Value → Except Failure α}
    (huse : ∀ v failure, use v = .error failure → D.failure failure)
    (breaksOff : Datum → Bool)
    {forms : List Datum} {failure : Option Failure} {interpreter : Interpreter}
    (hkeeps : interpreter.Keeps D) (hforms : ∀ form ∈ forms, D.form form)
    (hfailure : ∀ cause, failure = some cause → D.failure cause) :
    Obeys D interpreter (evaluateForms use breaksOff forms failure interpreter).2
      (evaluateForms use breaksOff forms failure interpreter).1.ending.failure? := by
  have hhere {interpreter : Interpreter} (hkeeps : interpreter.Keeps D) :
      Obeys D interpreter interpreter none := .refl hD hkeeps (by simp)
  induction forms generalizing interpreter with
  | nil =>
      rw [evaluateForms.eq_def]
      cases failure with
      | none => exact hhere hkeeps
      | some cause => exact (hhere hkeeps).fail (hfailure cause rfl)
  | cons form forms ih =>
      obtain ⟨hform, hforms⟩ := List.forall_mem_cons.mp hforms
      have hstep := obeys_evaluateForm hD hkeeps hform
      rw [evaluateForms.eq_def]
      dsimp only
      split
      · next tooDeep hwrite =>
          exact (hhere hkeeps).fail (failure_of_write hD hwrite)
      · split
        · exact hhere hkeeps
        · split
          · next failed after heval =>
              rw [heval] at hstep
              exact hstep
          · next v after heval =>
              rw [heval] at hstep
              split
              · next failed huses => exact hstep.fail (huse v failed huses)
              · next result huses => exact hstep.trans hD (ih hstep.keeps hforms)

/-- All values of a run are allowed in the store that it leaves. -/
theorem value_of_mem_results (hD : D.Lawful) (breaksOff : Datum → Bool) {forms : List Datum}
    {failure : Option Failure} {interpreter : Interpreter} (hkeeps : interpreter.Keeps D)
    (hforms : ∀ form ∈ forms, D.form form)
    (hfailure : ∀ cause, failure = some cause → D.failure cause) :
    ∀ v ∈ (evaluateForms .ok breaksOff forms failure interpreter).1.results,
      D.value (evaluateForms .ok breaksOff forms failure interpreter).2.store v := by
  induction forms generalizing interpreter with
  | nil => cases failure <;> simp [evaluateForms]
  | cons form forms ih =>
      obtain ⟨hform, hforms⟩ := List.forall_mem_cons.mp hforms
      have hstep := obeys_evaluateForm hD hkeeps hform
      have hvalue (v : Value) (h : (interpreter.evaluateForm form).1 = .ok v) :=
        value_of_evaluateForm hD hkeeps hform h
      rw [evaluateForms.eq_def]
      dsimp only
      split
      · simp
      · split
        · simp
        · split
          · simp
          · next v after heval =>
              rw [heval] at hstep hvalue
              have hlater : Obeys D after (evaluateForms .ok breaksOff forms failure after).2 _ :=
                obeys_evaluateForms hD (by simp) breaksOff hstep.keeps hforms hfailure
              exact List.forall_mem_cons.mpr
                ⟨hD.value_mono hlater.grows (hvalue v rfl), ih hstep.keeps hforms⟩

/-! ## Running a source text -/

section Sources

variable {interpreter : Interpreter} {source : Option String}

theorem obeys_evaluateSource (hD : D.Lawful) {α : Type} {use : Value → Except Failure α}
    (huse : ∀ v failure, use v = .error failure → D.failure failure)
    (breaksOff : Datum → Bool)
    (hkeeps : interpreter.Keeps D)
    (hreadable : D.Readable (readSource interpreter.limit source)) :
    Obeys D interpreter (interpreter.evaluateSource use breaksOff source).2
      (interpreter.evaluateSource use breaksOff source).1.ending.failure? :=
  obeys_evaluateForms hD huse breaksOff hkeeps hreadable.forms hreadable.failure

@[simp]
theorem failureOf?_lastValue (transcript : Transcript Value) :
    failureOf? transcript.lastValue = transcript.ending.failure? := by
  rw [Transcript.lastValue.eq_def]
  cases transcript.ending <;> rfl

theorem obeys_eval (hD : D.Lawful) (hkeeps : interpreter.Keeps D)
    (hreadable : D.Readable (readSource interpreter.limit source)) :
    Obeys D interpreter (interpreter.eval source).2 (failureOf? (interpreter.eval source).1) := by
  rw [eval, failureOf?_lastValue]
  exact obeys_evaluateSource hD (by simp) uninterrupted hkeeps hreadable

/-- The value that a text ends with is allowed. -/
theorem value_of_eval (hD : D.Lawful) (hkeeps : interpreter.Keeps D)
    (hreadable : D.Readable (readSource interpreter.limit source)) {v : Value}
    (h : (interpreter.eval source).1 = .ok v) : D.value (interpreter.eval source).2.store v := by
  have hresults := value_of_mem_results hD uninterrupted hkeeps hreadable.forms hreadable.failure
  change (interpreter.values source).1.lastValue = .ok v at h
  rw [Transcript.lastValue.eq_def] at h
  split at h
  · cases h
  · cases h
    have hmem : (interpreter.values source).1.results.getLastD Value.nothing ∈ _ :=
      List.getLastD_mem_cons
    rcases List.mem_cons.mp hmem with hnothing | hresult
    · rw [hnothing]
      exact hD.list_iff.mpr (by simp)
    · exact hresults _ hresult

theorem obeys_run (hD : D.Lawful) (breaksOff : Datum → Bool) (hkeeps : interpreter.Keeps D)
    (hreadable : D.Readable (readSource interpreter.limit source)) :
    Obeys D interpreter (interpreter.run breaksOff source).2
      (interpreter.run breaksOff source).1.ending.failure? :=
  obeys_evaluateSource hD (fun _ _ => failure_of_write hD) breaksOff hkeeps hreadable

end Sources

end Interpreter

end Lisplet
