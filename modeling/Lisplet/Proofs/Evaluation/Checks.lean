import Lisplet.Proofs.Evaluation.Bindings
import Lisplet.Proofs.Evaluation.Preservation
import Lisplet.Unchecked

/-!
# Checks before operations

The evaluator over operations that may fault is the evaluator: each of these operations
stands behind a check, on every path through special forms, primitives and calls.  So an
evaluation fails in the ways of the language only, and of these not with a text that cannot
be read.
-/

namespace Lisplet

open Lisplet.Computation

namespace Unchecked

variable {α β : Type}

/-! ## Computations as attempts -/

@[simp]
theorem of_pure (answer : α) : of (pure answer) = (pure answer : Attempt α) := rfl

theorem of_bind (first : Computation α) (later : α → Computation β) :
    of (first >>= later) = of first >>= fun answer => of (later answer) := by
  funext s
  change of (EStateM.bind first later) s = EStateM.bind (of first) _ s
  rw [EStateM.bind, of, of, EStateM.bind]
  cases first s <;> rfl

@[simp]
theorem of_discard (computation : Computation α) :
    of (discard computation) = discard (of computation) := by
  funext s
  change of (EStateM.map _ computation) s = EStateM.map _ (of computation) s
  rw [of, EStateM.map, EStateM.map, of]
  cases computation s <;> rfl

theorem of_mapM (items : List α) (step : α → Computation β) :
    of (items.mapM step) = items.mapM fun item => of (step item) := by
  induction items with
  | nil => rfl
  | cons item items ih =>
      rw [List.mapM_cons, List.mapM_cons, of_bind]
      congr 1
      funext first
      rw [of_bind, ih]
      rfl

@[simp]
theorem risk_ok (answer : α) : risk (.ok answer) = pure answer := rfl

/-! ## Arithmetic -/

theorem signedInfinity_eq (x y : Double) :
    signedInfinity x y = .real (Double.infinity (x.negative != y.negative)) := by
  have hinfinite : (Double.infinity x.negative).isInfinite = true := by
    simp [Double.infinity, Double.ofPlace, Double.isInfinite]
  have hone : Double.isZero { Double.ofNat 1 with negative := y.negative } = false := by
    have h : (Double.ofNat 1).isZero = false := by decide +kernel
    exact h
  have hzero : (Double.infinity x.negative).isZero = false := by
    cases x.negative <;> decide
  rw [signedInfinity, Double.mul?, hinfinite, hone, hzero]
  rfl

/-- The quotient by zero of a double that is not zero. -/
theorem div?_of_isZero {x y : Double} (hx : x.isZero = false) (hy : y.isZero = true) :
    x.div? y = some (Double.infinity (x.negative != y.negative)) := by
  have hfinite : y.isInfinite = false := by
    rw [Double.isZero, beq_iff_eq] at hy
    rw [Double.isInfinite, hy]
    decide
  rw [Double.div?, hfinite, hx, hy]
  simp

@[simp]
theorem divide_eq (m n : Number) : divide m n = .ok (m.div n) := by
  cases m with
  | real x =>
      cases n with
      | nan mark => rfl
      | real y =>
          rw [divide, quotient, Number.div]
          cases hy : y.isZero with
          | false => rfl
          | true =>
              cases hx : x.isZero with
              | true => simp only [Bool.and_self, if_true]
              | false =>
                  simp only [div?_of_isZero hx hy, signedInfinity_eq, Number.Outcome.ofOption,
                    Bool.and_false, Bool.false_eq_true, if_true, if_false]
  | nan mark =>
      cases n with
      | nan mark => rfl
      | real y =>
          rw [divide.eq_def, quotient, Number.div]
          cases y.isZero <;> rfl

@[simp]
theorem remainder_eq (m n : Number) : remainder m n = .ok (m.rem n) := by
  cases m with
  | nan mark => rfl
  | real x =>
      cases n with
      | nan mark => rfl
      | real y =>
          rw [remainder, modulus, Number.rem]
          cases x.rem? y <;> rfl

@[simp]
theorem outcome_eq (kind : Arithmetic) (m n : Number) :
    outcome kind m n = .ok (kind.outcome m n) := by
  cases kind with
  | div => exact divide_eq m n
  | rem => exact remainder_eq m n
  | add | sub | mul => rfl

/-! ## Names -/

/-- A frame that was found binds the name. -/
@[simp]
theorem lookup_eq (place : FrameId) (name : String) :
    lookup place name = of (Computation.lookup place name) := by
  funext s
  have hget : (get : Computation Store) s = .ok s s := rfl
  have hfind : Computation.find place name s = _ := Computation.bind_of_ok hget
  rw [of, Computation.lookup_apply, Store.lookup?]
  change EStateM.bind (of (Computation.find place name)) _ s = _
  rw [EStateM.bind, of, hfind]
  cases hfound : s.find? place name with
  | none => rfl
  | some frame =>
      obtain ⟨value, hvalue⟩ := Option.isSome_iff_exists.mp (Store.isSome_bound?_of_find? hfound)
      change risk (binding s frame name) s = _
      rw [binding, Option.bind_some, hvalue]
      rfl

/-! ## Special forms -/

section Forms

variable (room : Nat) (evaluate : Value → Computation Value) (operands : List Value)
  (place : FrameId)

theorem quote_eq :
    quote room (of <| evaluate ·) operands place = of (SpecialForm.quote operands) := by
  match operands with
  | [] | [_] | _ :: _ :: _ => rfl

theorem branch_eq :
    branch room (of <| evaluate ·) operands place =
      of (SpecialForm.branch room evaluate operands) := by
  match operands with
  | [] | [_] | [_, _] | _ :: _ :: _ :: _ :: _ => rfl
  | [test, consequent, alternative] =>
      rw [SpecialForm.branch, of_bind]
      change (of (evaluate test) >>= _) = _
      congr 1
      funext answer
      cases answer with
      | boolean b => cases b <;> rfl
      | _ => rfl

theorem bindHere_eq :
    bindHere room (of <| evaluate ·) operands place =
      of (SpecialForm.bindHere room evaluate operands place) := by
  match operands with
  | [] | [_] | _ :: _ :: _ :: _ => rfl
  | [name, expression] =>
      cases name with
      | symbol name =>
          rw [SpecialForm.bindHere, of_bind]
          change (of (evaluate expression) >>= _) = _
          congr 1
      | _ => rfl

theorem rebind_eq :
    rebind room (of <| evaluate ·) operands place =
      of (SpecialForm.rebind room evaluate operands place) := by
  match operands with
  | [] | [_] | _ :: _ :: _ :: _ => rfl
  | [name, expression] =>
      cases name with
      | symbol name =>
          rw [SpecialForm.rebind, of_bind]
          change (of (evaluate expression) >>= _) = _
          congr 1
          funext answer
          rw [of_bind]
          rfl
      | _ => rfl

theorem close_eq :
    close room (of <| evaluate ·) operands place = of (SpecialForm.close room operands place) := by
  match operands with
  | [] | [_] | _ :: _ :: _ :: _ => rfl
  | [parameters, body] =>
      cases parameters with
      | list identity parameters =>
          simp only [close, SpecialForm.close, expectOperands, two, risk_ok, pure_bind,
            List.length_cons, List.length_nil, if_true]
          cases parameters.find? (!SpecialForm.isSymbol ·) <;> rfl
      | _ => rfl

/-- The last element is there, since there is a first one. -/
theorem inSequence_eq :
    inSequence room (of <| evaluate ·) operands place =
      of (SpecialForm.inSequence evaluate operands) := by
  fun_induction SpecialForm.inSequence evaluate operands with
  | case1 => rfl
  | case2 expression => rfl
  | case3 expression next later ih =>
      -- all but the last expression: the first one, and those of the rest
      rw [of_bind, of_discard, ← ih]
      change ((expression :: (next :: later).dropLast).forM _ >>= fun _ => _) = _
      rw [List.forM_eq_forM, List.forM_cons, bind_assoc]
      rfl

/-- Every special form has a handler. -/
theorem runForm_eq (form : SpecialForm) :
    runForm room (of <| evaluate ·) form operands place =
      of (form.run room evaluate operands place) := by
  cases form with
  | quotation => exact quote_eq room evaluate operands place
  | conditional => exact branch_eq room evaluate operands place
  | definition => exact bindHere_eq room evaluate operands place
  | assignment => exact rebind_eq room evaluate operands place
  | abstraction => exact close_eq room evaluate operands place
  | sequence => exact inSequence_eq room evaluate operands place

end Forms

/-! ## Primitives -/

section Primitives

variable (operation : Primitive) (arguments : List Value)

theorem unary_eq (body : Value → Computation α) :
    unary operation arguments (of <| body ·) = of (operation.unary arguments body) := by
  match arguments with
  | [] | [_] | _ :: _ :: _ => rfl

theorem binary_eq (body : Value → Value → Computation α) :
    binary operation arguments (fun x y => of (body x y)) =
      of (operation.binary arguments body) := by
  match arguments with
  | [] | [_] | [_, _] | _ :: _ :: _ :: _ => rfl

theorem pair_eq (body : Value → Value → Computation α) :
    pair operation arguments (fun x y => of (body x y)) =
      of (operation.binary arguments body) := by
  match arguments with
  | [] | [_] | [_, _] | _ :: _ :: _ :: _ => rfl

theorem perform_eq (room : Nat) (apply : Value → List Value → Computation Value)
    (applyEach : Value → List Value → Computation (List Value)) :
    perform room (fun f vs => of (apply f vs)) (fun f vs => of (applyEach f vs)) operation
        arguments =
      of (operation.run room apply applyEach arguments) := by
  -- The bodies are compared for every argument; behind the check of the number of arguments
  -- there is one at every place that is read.
  cases operation with
  | arithmetic kind =>
      rw [Primitive.run, ← binary_eq]
      simp only [perform, of_bind, outcome_eq, risk_ok, pure_bind, of_pure]
  | comparison relation =>
      rw [Primitive.run, ← binary_eq]
      simp only [perform, of_bind, of_pure]
  | variant test =>
      rw [Primitive.run, ← unary_eq]
      rfl
  | car =>
      rw [Primitive.run, ← unary_eq]
      simp only [perform, of_bind]
      congr
      funext x
      congr
      funext items
      cases items <;> rfl
  | cdr =>
      rw [Primitive.run, ← unary_eq]
      simp only [perform, of_bind]
      congr
      funext x
      congr
      funext items
      cases items <;> rfl
  | cons =>
      rw [Primitive.run, ← pair_eq]
      simp only [perform, of_bind]
  | append =>
      rw [Primitive.run, ← binary_eq]
      simp only [perform, of_bind]
  | list => rfl
  | length =>
      rw [Primitive.run, ← unary_eq]
      simp only [perform, of_bind, of_pure]
  | not =>
      rw [Primitive.run, ← unary_eq]
      simp only [perform, of_bind, of_pure]
  | identical =>
      rw [Primitive.run, ← binary_eq]
      rfl
  | equal =>
      rw [Primitive.run, ← binary_eq]
      simp only [perform]
      congr
      funext x y
      cases x.sameWithin? room y <;> rfl
  | map =>
      rw [Primitive.run, ← pair_eq]
      simp only [perform, of_bind]
  | apply =>
      rw [Primitive.run, ← pair_eq]
      simp only [perform, of_bind]

end Primitives

/-! ## The evaluator -/

/-- Up to some room for nested calls, the two evaluators are the same. -/
structure SameWithin (room : Nat) : Prop where
  evaluate : ∀ v place, evaluate room v place = of (Lisplet.evaluate room v place)
  evaluateEach : ∀ vs place, evaluateEach room vs place = of (Lisplet.evaluateEach room vs place)
  evaluateForm : ∀ form operands place,
    evaluateForm room form operands place = of (Lisplet.evaluateForm room form operands place)
  apply : ∀ f vs place, apply room f vs place = of (Lisplet.apply room f vs place)
  runPrimitive : ∀ operation vs place,
    runPrimitive room operation vs place = of (Lisplet.runPrimitive room operation vs place)
  applyEach : ∀ f vs place, applyEach room f vs place = of (Lisplet.applyEach room f vs place)

theorem sameWithin_zero : SameWithin 0 :=
  ⟨fun _ _ => rfl, fun _ _ => rfl, fun _ _ _ => rfl, fun _ _ _ => rfl, fun _ _ _ => rfl,
    fun _ _ _ => rfl⟩

section Step

variable {room : Nat} (h : SameWithin room)

include h

theorem evaluate_succ (v : Value) (place : FrameId) :
    evaluate (room + 1) v place = of (Lisplet.evaluate (room + 1) v place) := by
  cases v with
  | symbol name => exact lookup_eq place name
  | number | boolean | primitive | closure => rfl
  | list identity items =>
      cases items with
      | nil => rfl
      | cons head operands =>
          rw [Unchecked.evaluate, Lisplet.evaluate]
          simp only [behead, risk_ok, pure_bind, List.isEmpty_cons, Bool.false_eq_true, if_false]
          cases SpecialForm.ofHead? head with
          | some form => exact h.evaluateForm form operands place
          | none => simp only [of_bind, h.evaluate, h.evaluateEach, h.apply]

theorem sameWithin_succ : SameWithin (room + 1) where
  evaluate := evaluate_succ h
  evaluateEach vs place := by
    rw [Unchecked.evaluateEach, Lisplet.evaluateEach, of_mapM]
    simp only [h.evaluate]
  evaluateForm form operands place := by
    rw [Unchecked.evaluateForm, Lisplet.evaluateForm, ← runForm_eq]
    simp only [h.evaluate]
  apply f vs place := by
    cases f with
    | closure identity parameters body scope =>
        rw [Unchecked.apply, Lisplet.apply, of_bind]
        simp only [h.evaluate]
    | primitive identity operation => exact h.runPrimitive operation vs place
    | number | boolean | symbol | list => rfl
  runPrimitive operation vs place := by
    rw [Unchecked.runPrimitive, Lisplet.runPrimitive, ← perform_eq]
    simp only [h.apply, h.applyEach]
  applyEach f vs place := by
    rw [Unchecked.applyEach, Lisplet.applyEach, of_mapM]
    simp only [h.apply]

end Step

theorem sameWithin (room : Nat) : SameWithin room := by
  induction room with
  | zero => exact sameWithin_zero
  | succ room ih => exact sameWithin_succ ih

end Unchecked

/-! ## The failures of an evaluation -/

namespace Discipline

def failing (failure : Failure → Prop) : Discipline := { unrestricted with failure }

theorem lawful_failing {failure : Failure → Prop}
    (hcount : ∀ form, failure (.operandCount form))
    (hordinary : ∀ cause : Failure, cause.Ordinary → failure cause)
    (hparameter : ∀ shown, failure (.boundNotSymbol shown)) : (failing failure).Lawful :=
  { lawful_unrestricted with
    count := fun _ _ => .inr (hcount _)
    ordinary := hordinary _
    parameter := fun _ _ => hparameter }

end Discipline

namespace FailureKind

/-- The kinds of failures that an evaluation may end with. -/
def ofEvaluation : List FailureKind := [unboundName, wrongCount, wrongVariant, tooDeep]

end FailureKind

theorem Failure.kind_mem_ofEvaluation {failure : Failure} (h : failure.Ordinary) :
    failure.kind ∈ FailureKind.ofEvaluation := by
  cases failure with
  | noCode | unexpectedEnd | unexpectedClose => exact h.elim
  | _ => simp [Failure.kind, FailureKind.ofEvaluation]

namespace Unchecked

theorem lawful_kinds :
    (Discipline.failing fun failure => failure.kind ∈ FailureKind.ofEvaluation).Lawful :=
  Discipline.lawful_failing (fun _ => by simp [Failure.kind, FailureKind.ofEvaluation])
    (fun _ => Failure.kind_mem_ofEvaluation)
    (fun _ => by simp [Failure.kind, FailureKind.ofEvaluation])

/-- An attempt ends with an answer or with a failure of one of the kinds of evaluation. -/
def EndsAsDocumented {α : Type} (attempt : Attempt α) (s : Store) : Prop :=
  match attempt s with
  | .ok _ _ => True
  | .error (.failure failure) _ => failure.kind ∈ FailureKind.ofEvaluation
  | .error (.fault _) _ => False

theorem endsAsDocumented_of {α : Type} {expected : Store → α → Prop}
    {computation : Computation α} {s : Store}
    (h : (Discipline.failing fun failure => failure.kind ∈ FailureKind.ofEvaluation).Keeps
      expected computation s) : EndsAsDocumented (of computation) s := by
  rw [EndsAsDocumented, of]
  cases hrun : computation s with
  | ok answer t => trivial
  | error failure t => exact (h.error hrun).2.2

/-- Evaluation and application never fault, whatever the store, the expression, the
procedure and the arguments are: the operations without a result for some arguments may as
well be tried, for they are applied behind checks.  So there is an answer, or a failure of
one of four kinds. -/
theorem evaluate_apply_never_fault (room : Nat) (place : FrameId) (s : Store) :
    (∀ v, evaluate room v place = of (Lisplet.evaluate room v place) ∧
      EndsAsDocumented (evaluate room v place) s) ∧
    ∀ f vs, apply room f vs place = of (Lisplet.apply room f vs place) ∧
      EndsAsDocumented (apply room f vs place) s := by
  have hsame := sameWithin room
  constructor
  · intro v
    rw [hsame.evaluate]
    exact ⟨rfl, endsAsDocumented_of
      (Discipline.keeps_evaluate lawful_kinds trivial trivial trivial)⟩
  · intro f vs
    rw [hsame.apply]
    exact ⟨rfl, endsAsDocumented_of
      (Discipline.keeps_apply lawful_kinds trivial trivial fun _ _ => trivial)⟩

end Unchecked

end Lisplet
