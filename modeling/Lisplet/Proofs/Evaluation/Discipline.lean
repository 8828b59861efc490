import Lisplet.Evaluation

/-!
# Disciplines

Many properties of the evaluator have one shape: certain values, frames and expressions
may occur, the store keeps an invariant and changes in certain ways only, and only
certain failures arise.  A discipline names these six things, and its laws say what each
of them owes to a single step.  This file gives the rules by which computations keep a
discipline; the evaluator is shown to keep every lawful one in
`Lisplet.Proofs.Evaluation.Preservation`.
-/

namespace Lisplet

namespace SpecialForm

def Takes : SpecialForm → Nat → Prop
  | quotation, count => count = 1
  | conditional, count => count = 3
  | definition, count | assignment, count | abstraction, count => count = 2
  | sequence, count => 1 ≤ count

end SpecialForm

namespace Failure

/-- The failures that any evaluation may end with.  The others need a text that cannot
be read, a special form with a wrong number of operands, or a name that is no symbol. -/
def Ordinary : Failure → Prop
  | noCode | unexpectedEnd | unexpectedClose | operandCount _ | boundNotSymbol _ | cannotDefine _
  | cannotAssign _ => False
  | _ => True

end Failure

namespace Computation

variable {α β : Type} {s t : Store}

/-- The store that a computation leaves, whether it fails or not. -/
def after (computation : Computation α) (s : Store) : Store :=
  match computation s with
  | .ok _ t => t
  | .error _ t => t

def outcome (computation : Computation α) (s : Store) : Except Failure α :=
  match computation s with
  | .ok answer _ => .ok answer
  | .error failure _ => .error failure

theorem after_of_ok {computation : Computation α} {answer : α}
    (h : computation s = .ok answer t) : computation.after s = t := by
  rw [after, h]

theorem after_of_error {computation : Computation α} {failure : Failure}
    (h : computation s = .error failure t) : computation.after s = t := by
  rw [after, h]

theorem outcome_of_ok {computation : Computation α} {answer : α}
    (h : computation s = .ok answer t) : computation.outcome s = .ok answer := by
  rw [outcome, h]

theorem outcome_of_error {computation : Computation α} {failure : Failure}
    (h : computation s = .error failure t) : computation.outcome s = .error failure := by
  rw [outcome, h]

theorem bind_of_ok {first : Computation α} {later : α → Computation β} {answer : α}
    (h : first s = .ok answer t) : (first >>= later) s = later answer t := by
  change EStateM.bind first later s = later answer t
  rw [EStateM.bind, h]

theorem bind_of_error {first : Computation α} {later : α → Computation β} {failure : Failure}
    (h : first s = .error failure t) : (first >>= later) s = .error failure t := by
  change EStateM.bind first later s = .error failure t
  rw [EStateM.bind, h]

end Computation

/-- What may occur in an evaluation. -/
structure Discipline where
  store : Store → Prop
  /-- How a store may change. -/
  grows : Store → Store → Prop
  value : Store → Value → Prop
  frame : Store → FrameId → Prop
  /-- The expressions that may be evaluated. -/
  code : Store → Value → Prop
  failure : Failure → Prop

namespace Discipline

def renumbered (s : Store) (next : Identity) : Store := { s with nextIdentity := next }

def extended (s : Store) (bindings : Bindings) (outer : Option FrameId) : Store :=
  (s.allocate ⟨bindings, outer⟩).2

/-- What the six parts of a discipline owe to the single steps of an evaluation. -/
structure Lawful (D : Discipline) : Prop where
  grows_refl : ∀ s, D.grows s s
  grows_trans : ∀ {s t u}, D.grows s t → D.grows t u → D.grows s u
  value_mono : ∀ {s t v}, D.grows s t → D.value s v → D.value t v
  frame_mono : ∀ {s t place}, D.grows s t → D.frame s place → D.frame t place
  code_mono : ∀ {s t v}, D.grows s t → D.code s v → D.code t v
  number : ∀ s x, D.value s (.number x)
  boolean : ∀ s b, D.value s (.boolean b)
  list_iff : ∀ {s identity items},
    D.value s (.list identity items) ↔ ∀ v ∈ items, D.value s v
  renumber : ∀ {s next}, s.nextIdentity ≤ next → D.store s →
    D.store (renumbered s next) ∧ D.grows s (renumbered s next)
  lookup : ∀ {s place name v}, D.store s → D.frame s place → s.lookup? place name = some v →
    D.value s v
  define : ∀ {s place name v}, D.store s → D.frame s place → D.value s v →
    D.store (s.define place name v) ∧ D.grows s (s.define place name v)
  assign : ∀ {s t identity head name expression place v}, D.store s → D.frame s place →
    D.code s (.list identity [head, .symbol name, expression]) →
    SpecialForm.ofHead? head = some .assignment → D.value s v →
    s.assign? place name v = some t → D.store t ∧ D.grows s t
  call : ∀ {s identity parameters body scope arguments bindings}, D.store s →
    D.value s (.closure identity parameters body scope) → (∀ v ∈ arguments, D.value s v) →
    Computation.bindingsOf parameters arguments [] = .ok bindings →
    D.store (extended s bindings (some scope)) ∧ D.grows s (extended s bindings (some scope)) ∧
      D.frame (extended s bindings (some scope)) s.frames.size ∧
      D.code (extended s bindings (some scope)) body
  /-- What is neither a symbol nor a list with elements is its own value. -/
  literal : ∀ {s v}, D.code s v → (∀ name, v ≠ .symbol name) →
    (∀ identity head operands, v ≠ .list identity (head :: operands)) → D.value s v
  operator : ∀ {s identity head operands}, D.code s (.list identity (head :: operands)) →
    SpecialForm.ofHead? head = none → D.code s head
  operands : ∀ {s identity head operands}, D.code s (.list identity (head :: operands)) →
    SpecialForm.ofHead? head ≠ some .quotation → ∀ v ∈ operands, D.code s v
  quoted : ∀ {s identity head datum}, D.code s (.list identity [head, datum]) →
    SpecialForm.ofHead? head = some .quotation → D.value s datum
  closure : ∀ {s identity head fresh inner parameters body place},
    D.code s (.list identity [head, .list inner parameters, body]) →
    SpecialForm.ofHead? head = some .abstraction →
    (∀ v ∈ parameters, SpecialForm.isSymbol v = true) → D.frame s place →
    D.value s (.closure fresh parameters body place)
  count : ∀ {s identity head operands form}, D.code s (.list identity (head :: operands)) →
    SpecialForm.ofHead? head = some form →
    form.Takes operands.length ∨ D.failure (.operandCount form)
  ordinary : ∀ {failure : Failure}, failure.Ordinary → D.failure failure
  parameter : ∀ {s identity parameters body scope arguments other},
    D.value s (.closure identity parameters body scope) →
    Computation.bindingsOf parameters arguments [] = .error other →
    ∀ shown, D.failure (.boundNotSymbol shown)

/-- Started in a store, a computation keeps a discipline: it ends in a store that the
discipline allows, with an answer as expected or with a failure that may arise. -/
@[irreducible]
def Keeps (D : Discipline) {α : Type} (expected : Store → α → Prop)
    (computation : Computation α) (s : Store) : Prop :=
  match computation s with
  | .ok answer t => D.store t ∧ D.grows s t ∧ expected t answer
  | .error failure t => D.store t ∧ D.grows s t ∧ D.failure failure

def values (D : Discipline) (s : Store) (vs : List Value) : Prop := ∀ v ∈ vs, D.value s v

namespace Keeps

variable {D : Discipline} {α β : Type} {s : Store}

theorem of_ok {expected : Store → α → Prop} {computation : Computation α} {answer : α}
    {t : Store} (hrun : computation s = .ok answer t) (ht : D.store t ∧ D.grows s t)
    (hanswer : expected t answer) : D.Keeps expected computation s := by
  rw [Keeps, hrun]
  exact ⟨ht.1, ht.2, hanswer⟩

theorem of_error {expected : Store → α → Prop} {computation : Computation α}
    {failure : Failure} {t : Store} (hrun : computation s = .error failure t)
    (ht : D.store t ∧ D.grows s t) (hfailure : D.failure failure) :
    D.Keeps expected computation s := by
  rw [Keeps, hrun]
  exact ⟨ht.1, ht.2, hfailure⟩

theorem ok {expected : Store → α → Prop} {computation : Computation α} {answer : α}
    {t : Store} (h : D.Keeps expected computation s) (hrun : computation s = .ok answer t) :
    D.store t ∧ D.grows s t ∧ expected t answer := by
  rw [Keeps, hrun] at h
  exact h

theorem error {expected : Store → α → Prop} {computation : Computation α} {failure : Failure}
    {t : Store} (h : D.Keeps expected computation s) (hrun : computation s = .error failure t) :
    D.store t ∧ D.grows s t ∧ D.failure failure := by
  rw [Keeps, hrun] at h
  exact h

/-- However it ends, a computation that keeps a discipline leaves an allowed store. -/
theorem after {expected : Store → α → Prop} {computation : Computation α}
    (h : D.Keeps expected computation s) :
    D.store (computation.after s) ∧ D.grows s (computation.after s) := by
  cases hcase : computation s with
  | ok answer t =>
      obtain ⟨ht, hgrows, -⟩ := h.ok hcase
      rw [Computation.after_of_ok hcase]
      exact ⟨ht, hgrows⟩
  | error failure t =>
      obtain ⟨ht, hgrows, -⟩ := h.error hcase
      rw [Computation.after_of_error hcase]
      exact ⟨ht, hgrows⟩

theorem pure (hD : D.Lawful) (hs : D.store s) {expected : Store → α → Prop} {answer : α}
    (h : expected s answer) : D.Keeps expected (pure answer : Computation α) s :=
  of_ok rfl ⟨hs, hD.grows_refl s⟩ h

/-- The second computation starts in whatever store the first one leaves. -/
theorem bind (hD : D.Lawful) {middle : Store → α → Prop} {expected : Store → β → Prop}
    {first : Computation α} {later : α → Computation β} (hfirst : D.Keeps middle first s)
    (hlater : ∀ t answer, D.store t → D.grows s t → middle t answer →
      D.Keeps expected (later answer) t) : D.Keeps expected (first >>= later) s := by
  cases hcase : first s with
  | error failure t =>
      obtain ⟨ht, hgrows, hfailure⟩ := hfirst.error hcase
      exact of_error (Computation.bind_of_error hcase) ⟨ht, hgrows⟩ hfailure
  | ok answer t =>
      obtain ⟨ht, hgrows, hmiddle⟩ := hfirst.ok hcase
      have hkeeps := hlater t answer ht hgrows hmiddle
      cases hnext : later answer t with
      | ok final u =>
          obtain ⟨hu, hmore, hfinal⟩ := hkeeps.ok hnext
          exact of_ok ((Computation.bind_of_ok hcase).trans hnext)
            ⟨hu, hD.grows_trans hgrows hmore⟩ hfinal
      | error failure u =>
          obtain ⟨hu, hmore, hfailure⟩ := hkeeps.error hnext
          exact of_error ((Computation.bind_of_ok hcase).trans hnext)
            ⟨hu, hD.grows_trans hgrows hmore⟩ hfailure

/-- What a step may rely on is still there for the steps after it, and so is what it
answered. -/
theorem mapM (hD : D.Lawful) {expected : Store → β → Prop} {items : List α}
    {step : α → Computation β}
    (hs : D.store s)
    (hstep : ∀ item ∈ items, ∀ t, D.store t → D.grows s t →
      D.Keeps expected (step item) t)
    (hmono : ∀ {t u answer}, D.grows t u → expected t answer → expected u answer) :
    D.Keeps (fun t answers => ∀ answer ∈ answers, expected t answer) (items.mapM step) s := by
  induction items generalizing s with
  | nil =>
      rw [List.mapM_nil]
      exact pure hD hs (by simp)
  | cons item items ih =>
      rw [List.mapM_cons]
      apply bind hD (hstep item (List.mem_cons_self ..) s hs (hD.grows_refl s))
      intro t first ht hgrows hfirst
      refine bind hD (ih ht fun other hother u hu hlater => ?_) ?_
      · exact hstep other (List.mem_cons_of_mem _ hother) u hu (hD.grows_trans hgrows hlater)
      · intro u rest hu hlater hrest
        exact pure hD hu (List.forall_mem_cons.mpr ⟨hmono hlater hfirst, hrest⟩)

theorem freshIdentity (hD : D.Lawful) (hs : D.store s) :
    D.Keeps (fun _ _ => True) Computation.freshIdentity s :=
  of_ok rfl (hD.renumber (Nat.le_succ s.nextIdentity) hs) trivial

theorem define (hD : D.Lawful) (hs : D.store s) {room : Nat} {place : FrameId}
    (hplace : D.frame s place) (name : String) {v : Value} (hv : D.value s v) :
    D.Keeps (fun _ _ => True) (Computation.define room place (.symbol name) v) s :=
  of_ok rfl (hD.define hs hplace hv) trivial

end Keeps

end Discipline

end Lisplet
