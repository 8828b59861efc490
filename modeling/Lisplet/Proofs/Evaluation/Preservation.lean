import Lisplet.Proofs.Evaluation.Simulation

/-!
# Evaluation keeps every lawful discipline

A single run is two runs that are the same.  So the pairing of every allowed store with
itself, which is lawful if the discipline is, gives what one run preserves.
-/

namespace Lisplet

namespace Discipline

variable {D : Discipline} {s : Store}

/-- Every allowed store, paired with itself. -/
def diagonal (D : Discipline) (roomier : Prop) : Pairing where
  Moment := { s : Store // D.store s }
  first m := m.1
  second m := m.1
  grows m n := D.grows m.1 n.1
  names := .same
  identity _ _ := True
  value m := D.value m.1
  frame m := D.frame m.1
  code m := D.code m.1
  failure := D.failure
  roomier := roomier

theorem later_diagonal {roomier : Prop} {m : (D.diagonal roomier).Moment} {t : Store}
    (h : D.store t ∧ D.grows m.1 t) : (D.diagonal roomier).Later m t t :=
  ⟨⟨t, h.1⟩, h.2, rfl, rfl⟩

theorem lawful_diagonal (hD : D.Lawful) (roomier : Prop) : (D.diagonal roomier).Lawful where
  grows_refl m := hD.grows_refl m.1
  grows_trans := hD.grows_trans
  identity_mono _ _ := trivial
  value_mono := hD.value_mono
  frame_mono := hD.frame_mono
  code_mono := hD.code_mono
  identity_zero _ := trivial
  number {m x} _ := hD.number m.1 x
  boolean m := hD.boolean m.1
  list_iff {m _ _} := by
    change D.value m.1 _ ↔ True ∧ _
    rw [true_and]
    exact hD.list_iff
  nextIdentity _ := rfl
  fresh m := by
    obtain ⟨hstore, hgrows⟩ := hD.renumber (Nat.le_succ _) m.2
    exact ⟨⟨_, hstore⟩, hgrows, rfl, rfl, trivial⟩
  lookup {m place name} hplace _ :=
    ⟨by simp [diagonal], fun _ hfound => hD.lookup m.2 hplace hfound⟩
  define {m place name v} hplace _ hv := by
    change (D.diagonal roomier).Later m _ (m.1.define place name (v.rename .same))
    rw [Value.rename_same]
    exact later_diagonal (hD.define m.2 hplace hv)
  assign {m _ _ name _ place v} hplace hcode hhead hv := by
    change Option.Rel _ (m.1.assign? place name v) (m.1.assign? place name (v.rename .same))
    rw [Value.rename_same]
    cases hassigned : m.1.assign? place name v with
    | none => exact .none
    | some t => exact .some (later_diagonal (hD.assign m.2 hplace hcode hhead hv hassigned))
  size _ := rfl
  call {m _ _ _ _ _ _} hclosure harguments hbindings := by
    obtain ⟨hstore, hgrows, hframe, hbody⟩ := hD.call m.2 hclosure harguments hbindings
    refine ⟨⟨_, hstore⟩, hgrows, rfl, ?_, hframe, hbody⟩
    exact congrArg (extended m.1 · _) (Bindings.rename_same _).symm
  literal := hD.literal
  operator := hD.operator
  operands := hD.operands
  quoted := hD.quoted
  closure hcode hhead hsymbols hplace _ := hD.closure hcode hhead hsymbols hplace
  count := hD.count
  ordinary := hD.ordinary
  parameter := hD.parameter

/-- A computation that agrees with itself keeps the discipline. -/
theorem keeps_of_agree {α : Type} {expected : Store → α → Prop} {computation : Computation α}
    (hs : D.store s)
    (h : (D.diagonal False).Agree (fun n => expected n.1) id computation computation ⟨s, hs⟩) :
    D.Keeps expected computation s := by
  cases h with
  | ok answer n hrun _ hgrows hanswer => exact .of_ok hrun ⟨n.2, hgrows⟩ hanswer
  | error failure n hrun _ hgrows hfailure => exact .of_error hrun ⟨n.2, hgrows⟩ hfailure
  | excused _ _ hroomier => exact hroomier.elim

section Evaluator

variable {room : Nat} {place : FrameId}

theorem keeps_evaluate (hD : D.Lawful) (hs : D.store s) (hplace : D.frame s place) {v : Value}
    (hcode : D.code s v) : D.Keeps D.value (evaluate room v place) s :=
  keeps_of_agree hs
    (Pairing.agree_evaluate_same (lawful_diagonal hD False) rfl (.inl rfl) hplace hcode)

theorem keeps_apply (hD : D.Lawful) (hs : D.store s) {f : Value} (hf : D.value s f)
    {vs : List Value} (hvs : D.values s vs) : D.Keeps D.value (apply room f vs place) s :=
  keeps_of_agree hs
    (Pairing.agree_apply_same (lawful_diagonal hD False) rfl (.inl rfl) hf hvs)

end Evaluator

/-! ## The widest discipline -/

def unrestricted : Discipline where
  store _ := True
  grows _ _ := True
  value _ _ := True
  frame _ _ := True
  code _ _ := True
  failure _ := True

theorem lawful_unrestricted : unrestricted.Lawful where
  grows_refl _ := trivial
  grows_trans _ _ := trivial
  value_mono _ _ := trivial
  frame_mono _ _ := trivial
  code_mono _ _ := trivial
  number _ _ := trivial
  boolean _ _ := trivial
  list_iff := ⟨fun _ _ _ => trivial, fun _ => trivial⟩
  renumber _ _ := ⟨trivial, trivial⟩
  lookup _ _ _ := trivial
  define _ _ _ := ⟨trivial, trivial⟩
  assign _ _ _ _ _ _ := ⟨trivial, trivial⟩
  call _ _ _ _ := ⟨trivial, trivial, trivial, trivial⟩
  literal _ _ _ := trivial
  operator _ _ := trivial
  operands _ _ _ _ := trivial
  quoted _ _ := trivial
  closure _ _ _ _ := trivial
  count _ _ := .inr trivial
  ordinary _ := trivial
  parameter _ _ _ := trivial

end Discipline

end Lisplet
