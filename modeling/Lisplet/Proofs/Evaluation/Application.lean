import Lisplet.Proofs.Evaluation.Room

/-!
# Application

A procedure is applied by an expression, or by the primitives `map` and `apply`, which
call back.  Where it is applied from makes no difference: the frame of the caller is
handed on from primitive to primitive, but nobody looks into it.  And the primitives that
call back do what the expression would do: `apply` makes the one call, and `map` one call
for every element, from left to right and up to the first that fails.
-/

namespace Lisplet

/-! ## The frame of the caller -/

/-- With this much room for nested calls, the frame of the caller makes no difference. -/
structure IgnoresCaller (room : Nat) : Prop where
  apply : ∀ procedure arguments (caller other : FrameId),
    apply room procedure arguments caller = apply room procedure arguments other
  runPrimitive : ∀ operation arguments (caller other : FrameId),
    runPrimitive room operation arguments caller = runPrimitive room operation arguments other
  applyEach : ∀ procedure items (caller other : FrameId),
    applyEach room procedure items caller = applyEach room procedure items other

theorem ignoresCaller_zero : IgnoresCaller 0 where
  apply _ _ _ _ := rfl
  runPrimitive _ _ _ _ := rfl
  applyEach _ _ _ _ := rfl

/-- The body of a closure is evaluated in the frame of the call, and the callers of a
primitive's own calls make no difference either. -/
theorem ignoresCaller_succ {room : Nat} (ih : IgnoresCaller room) : IgnoresCaller (room + 1) where
  apply procedure arguments caller other := by
    cases procedure with
    | primitive identity operation => exact ih.runPrimitive operation arguments caller other
    | closure | number | boolean | symbol | list => rfl
  runPrimitive operation arguments caller other := by
    have hcall : (apply room · · caller) = (apply room · · other) :=
      funext fun procedure => funext fun arguments => ih.apply procedure arguments caller other
    have hcalls : (applyEach room · · caller) = (applyEach room · · other) :=
      funext fun procedure => funext fun items => ih.applyEach procedure items caller other
    rw [runPrimitive, runPrimitive]
    exact congrArg₂ (operation.run room · · arguments) hcall hcalls
  applyEach procedure items caller other := by
    have hcall : (apply room procedure [·] caller) = (apply room procedure [·] other) :=
      funext fun item => ih.apply procedure [item] caller other
    rw [applyEach, applyEach]
    exact congrArg (items.mapM ·) hcall

theorem ignoresCaller (room : Nat) : IgnoresCaller room := by
  induction room with
  | zero => exact ignoresCaller_zero
  | succ room ih => exact ignoresCaller_succ ih

/-- Scope is lexical: whatever is applied to whatever arguments, with any room, the
application comes to the same answer or the same failure and to the same store from any
two frames. -/
theorem apply_from_any_frame (room : Nat) (procedure : Value) (arguments : List Value)
    (caller other : FrameId) (s : Store) :
    apply room procedure arguments caller s = apply room procedure arguments other s :=
  congrFun ((ignoresCaller room).apply procedure arguments caller other) s

/-! ## Expressions that apply a procedure -/

namespace Value

/-- The expression whose value is this one. -/
def quoted (identity : Identity) (v : Value) : Value :=
  .list identity [.symbol SpecialForm.quotation.keyword, v]

def call (identity : Identity) (procedure : Value) (arguments : List Value) : Value :=
  .list identity (procedure.quoted identity :: arguments.map (quoted identity))

def callEach (identity maker : Identity) (procedure : Value) (items : List Value) : Value :=
  .list identity (.primitive maker .list :: items.map fun item => procedure.call identity [item])

end Value

section Calls

variable (room : Nat) (place : FrameId) (identity : Identity)

@[simp]
theorem evaluate_quoted (v : Value) :
    evaluate (room + 3) (v.quoted identity) place = pure v := by
  rw [Value.quoted, evaluate.eq_def]
  simp only [SpecialForm.ofHead?, SpecialForm.ofKeyword?_keyword]
  rfl

@[simp]
theorem evaluateEach_quoted (vs : List Value) :
    evaluateEach (room + 4) (vs.map (Value.quoted identity)) place = pure vs := by
  rw [evaluateEach, List.mapM_map]
  have hquoted : (fun expression => evaluate (room + 3) expression place) ∘ Value.quoted identity =
      fun v => pure (id v) := funext fun v => evaluate_quoted room place identity v
  rw [hquoted, List.mapM_pure, List.map_id]

/-- An expression that applies a procedure comes to the application, one call deeper. -/
@[simp]
theorem evaluate_call (f : Value) (arguments : List Value) :
    evaluate (room + 5) (f.call identity arguments) place =
      apply (room + 4) f arguments place := by
  have hhead : SpecialForm.ofHead? (f.quoted identity) = none := rfl
  rw [Value.call, evaluate.eq_def]
  simp only [hhead, evaluate_quoted (room + 1), evaluateEach_quoted, pure_bind]

/-- The applications are made in turn, and their values are put into a new list. -/
theorem evaluate_callEach (f : Value) (items : List Value) (maker : Identity) :
    evaluate (room + 7) (f.callEach identity maker items) place =
      (items.mapM fun item => apply (room + 4) f [item] place) >>= Computation.newList := by
  have hhead : SpecialForm.ofHead? (.primitive maker .list) = none := rfl
  have hmaker : evaluate (room + 6) (.primitive maker .list) place =
      pure (.primitive maker .list) := rfl
  have hcalls : evaluateEach (room + 6) (items.map fun item => f.call identity [item]) place =
      items.mapM fun item => apply (room + 4) f [item] place := by
    rw [evaluateEach, List.mapM_map]
    exact congrArg (items.mapM ·) (funext fun item => evaluate_call room place identity f [item])
  rw [Value.callEach, evaluate.eq_def]
  simp only [hhead, hmaker, hcalls, pure_bind]
  rfl

end Calls

/-! ## Primitives that call back -/

section CallBacks

variable (room : Nat) (place : FrameId) (operation list : Identity)

@[simp]
theorem apply_apply (f : Value) (items : List Value) :
    apply (room + 2) (.primitive operation .apply) [f, .list list items] place =
      apply room f items place := by
  rw [apply, runPrimitive]
  rfl

theorem apply_map (f : Value) (items : List Value) :
    apply (room + 3) (.primitive operation .map) [f, .list list items] place =
      (items.mapM fun item => apply room f [item] place) >>= Computation.newList := by
  rw [apply, runPrimitive]
  rfl

end CallBacks

/-- A procedure is called with some items, one after the other, and every call answers. -/
inductive Called (call : Value → Computation Value) :
    Store → List Value → List Value → Store → Prop where
  | nil {s : Store} : Called call s [] [] s
  | cons {s t u : Store} {item answer : Value} {items answers : List Value} :
      call item s = .ok answer t → Called call t items answers u →
      Called call s (item :: items) (answer :: answers) u

/-- The calls go from left to right, one for each item, and the first one that fails is
the last. -/
theorem called_or_failed (call : Value → Computation Value) (items : List Value) (s : Store) :
    (∃ answers t, Called call s items answers t ∧ items.mapM call s = .ok answers t) ∨
      ∃ front item later answers t failure u, items = front ++ item :: later ∧
        Called call s front answers t ∧ call item t = .error failure u ∧
        items.mapM call s = .error failure u := by
  induction items generalizing s with
  | nil => exact .inl ⟨[], s, .nil, rfl⟩
  | cons item items ih =>
      rw [List.mapM_cons]
      cases hfirst : call item s with
      | error failure u =>
          exact .inr ⟨[], item, items, [], s, failure, u, rfl, .nil, hfirst,
            Computation.bind_of_error hfirst⟩
      | ok answer t =>
          rw [Computation.bind_of_ok hfirst]
          rcases ih t with ⟨answers, u, hcalled, hrun⟩ |
            ⟨front, last, later, answers, u, failure, w, rfl, hcalled, hlast, hrun⟩
          · rw [Computation.bind_of_ok hrun]
            exact .inl ⟨answer :: answers, u, .cons hfirst hcalled, rfl⟩
          · rw [Computation.bind_of_error hrun]
            exact .inr ⟨item :: front, last, later, answer :: answers, u, failure, w, rfl,
              .cons hfirst hcalled, hlast, rfl⟩

section Agreement

variable {room more : Nat} {v f : Value} {arguments : List Value} {place : FrameId} {s : Store}

theorem evaluate_eq_of_le (hle : room ≤ more)
    (hroom : (evaluate room v place).outcome s ≠ .error .depthExceeded) :
    evaluate more v place s = evaluate room v place s :=
  (evaluate_eq_or_exhausted hle v place s).resolve_right fun ⟨_, hexhausted⟩ =>
    hroom (Computation.outcome_of_error hexhausted)

theorem apply_eq_of_le (hle : room ≤ more)
    (hroom : (apply room f arguments place).outcome s ≠ .error .depthExceeded) :
    apply more f arguments place s = apply room f arguments place s :=
  (apply_eq_or_exhausted hle f arguments place s).resolve_right fun ⟨_, hexhausted⟩ =>
    hroom (Computation.outcome_of_error hexhausted)

/-- An application and an expression come to the same if they do with more room. -/
theorem apply_eq_evaluate {enough beyond : Nat} (hroom : room ≤ enough) (hmore : more ≤ beyond)
    (hsame : apply enough f arguments place = evaluate beyond v place)
    (hfirst : (apply room f arguments place).outcome s ≠ .error .depthExceeded)
    (hsecond : (evaluate more v place).outcome s ≠ .error .depthExceeded) :
    apply room f arguments place s = evaluate more v place s :=
  calc apply room f arguments place s
    _ = apply enough f arguments place s := (apply_eq_of_le hroom hfirst).symm
    _ = evaluate beyond v place s := congrFun hsame s
    _ = evaluate more v place s := evaluate_eq_of_le hmore hsecond

end Agreement

/-- Calling back is ordinary application.  Unless one of the two has too little room, the
primitive `apply` comes to the answer or the failure of the expression that applies the
procedure to the elements of the list, and to its store; the primitive `map` comes to those
of the expression that makes a list of one application for each element.  It calls the
procedure from left to right, once for each element, and the first call that fails is the
last. -/
theorem callBacks_are_applications (f : Value) (items : List Value) (place : FrameId) (s : Store)
    (room more : Nat) (operation list maker code : Identity) :
    ((apply room (.primitive operation .apply) [f, .list list items] place).outcome s ≠
          .error .depthExceeded →
        (evaluate more (f.call code items) place).outcome s ≠ .error .depthExceeded →
        apply room (.primitive operation .apply) [f, .list list items] place s =
          evaluate more (f.call code items) place s) ∧
      ((apply room (.primitive operation .map) [f, .list list items] place).outcome s ≠
          .error .depthExceeded →
        (evaluate more (f.callEach code maker items) place).outcome s ≠ .error .depthExceeded →
        apply room (.primitive operation .map) [f, .list list items] place s =
          evaluate more (f.callEach code maker items) place s) ∧
      ((∃ answers t, Called (apply room f [·] place) s items answers t ∧
          apply (room + 3) (.primitive operation .map) [f, .list list items] place s =
            Computation.newList answers t) ∨
        ∃ front item later answers t failure u, items = front ++ item :: later ∧
          Called (apply room f [·] place) s front answers t ∧
          apply room f [item] place t = .error failure u ∧
          apply (room + 3) (.primitive operation .map) [f, .list list items] place s =
            .error failure u) := by
  refine ⟨?_, ?_, ?_⟩
  · have hroom : room ≤ max room more + 6 := by omega
    have hmore : more ≤ max room more + 5 := by omega
    apply apply_eq_evaluate hroom hmore
    rw [apply_apply, evaluate_call]
  · have hroom : room ≤ max room more + 7 := by omega
    have hmore : more ≤ max room more + 7 := by omega
    apply apply_eq_evaluate hroom hmore
    rw [apply_map, evaluate_callEach]
  · rw [apply_map]
    rcases called_or_failed (apply room f [·] place) items s with
      ⟨answers, t, hcalled, hrun⟩ |
        ⟨front, item, later, answers, t, failure, u, hitems, hcalled, hfails, hrun⟩
    · exact .inl ⟨answers, t, hcalled, Computation.bind_of_ok hrun⟩
    · exact .inr ⟨front, item, later, answers, t, failure, u, hitems, hcalled, hfails,
        Computation.bind_of_error hrun⟩

/-- A procedure that adds to a variable of the frame that it was made in. -/
theorem callBacks_are_applications_counter :
    let source := "(define n 0) (define f (lambda (x) (begin (set! n (+ n x)) n)))"
    let s := ((Interpreter.create 100).run Interpreter.uninterrupted (some source)).2.store
    let f := (s.lookup? 0 "f").getD Value.nothing
    let items := [2, 5, 1].map fun n => Value.number (.real (Double.ofNat n))
    let called := apply 30 (.primitive 0 .apply) [f, .list 0 (items.take 1)] 0
    let mapped := apply 30 (.primitive 0 .map) [f, .list 0 items] 0
    ((called.outcome s).isOk = true ∧ (mapped.outcome s).isOk = true) ∧
      (called s = evaluate 20 (f.call 0 (items.take 1)) 0 s ∧
        mapped s = evaluate 40 (f.callEach 0 0 items) 0 s) ∧
      (mapped.outcome s).toOption.map Value.text = some "(2 7 8)" := by
  have hsucceeds {outcome : Except Failure Value} (hok : outcome.isOk = true) :
      outcome ≠ .error .depthExceeded := by
    rintro rfl
    cases hok
  have hsame (s : Store) (f : Value) (items : List Value)
      (hok :
        ((apply 30 (.primitive 0 .apply) [f, .list 0 (items.take 1)] 0).outcome s).isOk = true ∧
        ((apply 30 (.primitive 0 .map) [f, .list 0 items] 0).outcome s).isOk = true)
      (hexpression : ((evaluate 20 (f.call 0 (items.take 1)) 0).outcome s).isOk = true ∧
        ((evaluate 40 (f.callEach 0 0 items) 0).outcome s).isOk = true) :
      apply 30 (.primitive 0 .apply) [f, .list 0 (items.take 1)] 0 s =
          evaluate 20 (f.call 0 (items.take 1)) 0 s ∧
        apply 30 (.primitive 0 .map) [f, .list 0 items] 0 s =
          evaluate 40 (f.callEach 0 0 items) 0 s :=
    ⟨(callBacks_are_applications f (items.take 1) 0 s 30 20 0 0 0 0).1 (hsucceeds hok.1)
        (hsucceeds hexpression.1),
      (callBacks_are_applications f items 0 s 30 40 0 0 0 0).2.1 (hsucceeds hok.2)
        (hsucceeds hexpression.2)⟩
  dsimp only
  refine ⟨?_, hsame _ _ _ ?_ ?_, ?_⟩ <;> decide +kernel

end Lisplet
