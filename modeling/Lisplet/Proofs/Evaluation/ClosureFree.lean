import Lisplet.Proofs.Evaluation.Preservation

/-!
# Calls without closures

Only the body of a closure can bind a name, look one up or make a new closure.  So a call
in which no closure occurs leaves all frames as they were, however `map` and `apply` are
nested in it and however it ends, and it can only pass on the procedures that it is given.
-/

namespace Lisplet

namespace Value

/-- A value occurs in another one: it is that value, or it occurs in an element of it, or
in the parameters or the body of it if it is a closure. -/
inductive OccursIn (p : Value) : Value → Prop where
  | self : OccursIn p p
  | item {identity : Identity} {items : List Value} {v : Value} :
      v ∈ items → OccursIn p v → OccursIn p (.list identity items)
  | parameter {identity : Identity} {parameters : List Value} {body v : Value} {scope : FrameId} :
      v ∈ parameters → OccursIn p v → OccursIn p (.closure identity parameters body scope)
  | body {identity : Identity} {parameters : List Value} {body : Value} {scope : FrameId} :
      OccursIn p body → OccursIn p (.closure identity parameters body scope)

def ClosureFree (v : Value) : Prop :=
  ∀ identity parameters body scope, ¬ (closure identity parameters body scope).OccursIn v

@[simp]
theorem closureFree_list_iff {identity : Identity} {items : List Value} :
    (list identity items).ClosureFree ↔ ∀ v ∈ items, v.ClosureFree := by
  constructor
  · intro h v hv inner parameters body scope hoccurs
    exact h inner parameters body scope (.item hv hoccurs)
  · intro h inner parameters body scope hoccurs
    cases hoccurs with
    | item hv hinside => exact h _ hv inner parameters body scope hinside

theorem closureFree_boolean (b : Bool) : (boolean b).ClosureFree := nofun

theorem closureFree_primitive (identity : Identity) (operation : Primitive) :
    (primitive identity operation).ClosureFree := nofun

/-- Every procedure that occurs in a value occurs in one of some given values. -/
def PassedOn (given : List Value) (v : Value) : Prop :=
  ∀ p : Value, p.isProcedure = true → p.OccursIn v → ∃ w ∈ given, p.OccursIn w

@[simp]
theorem passedOn_list_iff {given : List Value} {identity : Identity} {items : List Value} :
    (list identity items).PassedOn given ↔ ∀ v ∈ items, v.PassedOn given := by
  constructor
  · intro h v hv p hp hoccurs
    exact h p hp (.item hv hoccurs)
  · intro h p hp hoccurs
    cases hoccurs with
    | self => cases hp
    | item hv hinside => exact h _ hv p hp hinside

end Value

namespace Discipline

/-- The frames stay as they are, and given procedures are passed on; no expression is
evaluated. -/
def passing (frames : Array Frame) (given : List Value) : Discipline where
  store s := s.frames = frames
  grows _ _ := True
  value _ := Value.PassedOn given
  frame _ _ := False
  code _ _ := False
  failure _ := True

theorem lawful_passing (frames : Array Frame) {given : List Value}
    (hfree : ∀ v ∈ given, v.ClosureFree) : (passing frames given).Lawful where
  grows_refl _ := trivial
  grows_trans _ _ := trivial
  value_mono _ hv := hv
  frame_mono _ hplace := hplace
  code_mono _ hcode := hcode
  number _ _ _ hp hoccurs := by cases hoccurs; cases hp
  boolean _ _ _ hp hoccurs := by cases hoccurs; cases hp
  list_iff := Value.passedOn_list_iff
  renumber _ hs := ⟨hs, trivial⟩
  lookup _ hplace _ := hplace.elim
  define _ hplace _ := hplace.elim
  assign _ hplace _ _ _ _ := hplace.elim
  -- A closure that is called would be a given one.
  call _ hclosure _ _ := by
    obtain ⟨v, hv, hoccurs⟩ := hclosure _ rfl .self
    exact absurd hoccurs (hfree v hv _ _ _ _)
  literal hcode _ _ := hcode.elim
  operator hcode _ := hcode
  operands hcode _ _ _ := hcode
  quoted hcode _ := hcode.elim
  closure hcode _ _ _ := hcode.elim
  count hcode _ := hcode.elim
  ordinary _ := trivial
  parameter _ _ _ := trivial

end Discipline

/-- A call in which no closure occurs, neither in what is called nor in its arguments,
leaves the frames as they were, whether it gives a value or fails.  Every procedure that
occurs in its value occurs in what is called or in the arguments. -/
theorem apply_of_closureFree {f : Value} {arguments : List Value}
    (hfree : ∀ v ∈ f :: arguments, v.ClosureFree) (room : Nat) (place : FrameId) (s : Store) :
    ((apply room f arguments place).after s).frames = s.frames ∧
      ∀ answer t, apply room f arguments place s = .ok answer t →
        ∀ p : Value, p.isProcedure = true → p.OccursIn answer →
          ∃ v ∈ f :: arguments, p.OccursIn v := by
  have hgiven (v : Value) (hv : v ∈ f :: arguments) : v.PassedOn (f :: arguments) :=
    fun _ _ hoccurs => ⟨v, hv, hoccurs⟩
  obtain ⟨hf, harguments⟩ := List.forall_mem_cons.mp hgiven
  have hkeeps : (Discipline.passing s.frames (f :: arguments)).Keeps
      (Discipline.passing s.frames (f :: arguments)).value (apply room f arguments place) s :=
    Discipline.keeps_apply (Discipline.lawful_passing s.frames hfree) rfl hf harguments
  exact ⟨hkeeps.after.1, fun answer t hrun => (hkeeps.ok hrun).2.2⟩

/-- Applying `map` to `car` and to lists that start with primitives, and to an empty list
after them. -/
theorem apply_of_closureFree_nested :
    let s : Store := ⟨#[⟨[("x", .boolean true)], none⟩], 20⟩
    let rows : List Value := [.list 1 [.primitive 2 .cons, .boolean true],
      .list 3 [.primitive 4 .cdr]]
    let arguments (rows : List Value) : List Value :=
      [.primitive 5 .map, .list 6 [.primitive 7 .car, .list 8 rows]]
    let call (rows : List Value) := apply 20 (.primitive 9 .apply) (arguments rows) 0
    (∀ v ∈ .primitive 9 .apply :: arguments rows, v.ClosureFree) ∧
      call rows s = .ok (.list 20 [.primitive 2 .cons, .primitive 4 .cdr])
        (Discipline.renumbered s 21) ∧
      (∃ v ∈ .primitive 9 .apply :: arguments rows, (Value.primitive 4 .cdr).OccursIn v) ∧
      (call (rows ++ [Value.nothing])).outcome s = .error (.emptyList .car) ∧
      ((call (rows ++ [Value.nothing])).after s).frames = s.frames := by
  intro s rows arguments call
  have hrows : ∀ v ∈ rows ++ [Value.nothing], v.ClosureFree := by
    simp [rows, Value.nothing, Value.closureFree_list_iff, Value.closureFree_boolean,
      Value.closureFree_primitive]
  have hfree (rows : List Value) (hrows : ∀ v ∈ rows, v.ClosureFree) :
      ∀ v ∈ .primitive 9 .apply :: arguments rows, v.ClosureFree := by
    simpa [arguments, Value.closureFree_list_iff, Value.closureFree_primitive] using hrows
  have hrun : call rows s = .ok (.list 20 [.primitive 2 .cons, .primitive 4 .cdr])
      (Discipline.renumbered s 21) := rfl
  have hcall := hfree rows fun v hv => hrows v (List.mem_append_left _ hv)
  refine ⟨hcall, hrun, ?_, rfl, (apply_of_closureFree (hfree _ hrows) 20 0 s).1⟩
  exact (apply_of_closureFree hcall 20 0 s).2 _ _ hrun _ rfl (.item (by simp) .self)

end Lisplet
