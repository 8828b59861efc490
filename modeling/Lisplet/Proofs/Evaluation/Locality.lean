import Mathlib.Data.List.Find
import Lisplet.Proofs.Evaluation.Confinement
import Lisplet.Proofs.Evaluation.Simulation

/-!
# Evaluation is local

What an evaluation answers depends only on the frames that it can reach and on the next
places and identities that the store hands out.  In two stores that are alike there, the
two runs answer the same, and leave stores that are still alike.
-/

namespace Lisplet

namespace Store

variable {region : FrameId → Prop} {s t : Store}

/-- Two stores have the same frames in a closed region, and hand out the same places and
identities next. -/
structure Alike (region : FrameId → Prop) (s t : Store) : Prop where
  size : t.frames.size = s.frames.size
  nextIdentity : t.nextIdentity = s.nextIdentity
  frames : ∀ place, region place → t.frames[place]? = s.frames[place]?
  closed : s.Closed region

theorem Alike.bound? (h : Alike region s t) {place : FrameId} (hplace : region place)
    (name : String) : t.bound? place name = s.bound? place name := by
  rw [Store.bound?, Store.bound?, h.frames place hplace]

theorem Alike.chain_go (h : Alike region s t) (steps : Nat) {place : FrameId}
    (hplace : region place) : chain.go t steps place = chain.go s steps place :=
  chain_go_congr (fun other hother => by rw [h.frames other hother]) h.closed.outer steps hplace

theorem Alike.find? (h : Alike region s t) {place : FrameId} (hplace : region place)
    (name : String) : t.find? place name = s.find? place name := by
  rw [Store.find?, Store.find?, chain, chain, h.chain_go _ hplace]
  refine List.find?_congr fun other hother => ?_
  rw [h.bound? (h.closed.of_mem_chain_go hplace other hother)]

theorem Alike.lookup? (h : Alike region s t) {place : FrameId} (hplace : region place)
    (name : String) : t.lookup? place name = s.lookup? place name := by
  rw [Store.lookup?, Store.lookup?, h.find? hplace]
  cases hfound : s.find? place name with
  | none => rfl
  | some target => exact h.bound? (h.closed.of_find? hplace hfound) name

theorem Alike.define (h : Alike region s t) (place : FrameId) (name : String) {v : Value}
    (hv : ∀ target, v.Captures target → region target) :
    Alike region (s.define place name v) (t.define place name v) where
  size := by rw [size_define, size_define, h.size]
  nextIdentity := h.nextIdentity
  frames := by
    intro other hother
    rw [frames_define, frames_define, h.frames other hother]
  closed := h.closed.define place name hv

theorem Alike.allocate (h : Alike region s t) {bindings : Bindings} {outer : Option FrameId}
    (houter : ∀ place, outer = some place → region place)
    (hbindings : ∀ name v, bindings.get? name = some v →
      ∀ target, v.Captures target → region target) :
    Alike (fun place => region place ∨ place = s.frames.size)
      (s.allocate ⟨bindings, outer⟩).2 (t.allocate ⟨bindings, outer⟩).2 where
  size := by rw [size_allocate, size_allocate, h.size]
  nextIdentity := h.nextIdentity
  frames := by
    intro place hplace
    rw [frames_allocate, frames_allocate, h.size]
    split
    · rfl
    · next hold => exact h.frames place (hplace.resolve_right hold)
  closed := h.closed.allocate houter hbindings

end Store

namespace Pairing

structure Locale where
  first : Store
  second : Store
  region : FrameId → Prop
  alike : Store.Alike region first second

/-- Two runs that use the frames of a region only, in stores that are alike there. -/
def locally : Pairing where
  Moment := Locale
  first := Locale.first
  second := Locale.second
  grows m n := ∀ place, m.region place → n.region place
  names := .same
  identity _ _ := True
  value m v := ∀ place, v.Captures place → m.region place
  frame m := m.region
  code m v := ∀ place, v.Captures place → m.region place
  failure _ := True
  roomier := False

theorem lawful_locally : locally.Lawful where
  grows_refl _ _ := id
  grows_trans h hlater place hplace := hlater place (h place hplace)
  identity_mono _ _ := trivial
  value_mono hgrows hv place hplace := hgrows place (hv place hplace)
  frame_mono hgrows hplace := hgrows _ hplace
  code_mono hgrows hv place hplace := hgrows place (hv place hplace)
  identity_zero _ := trivial
  number _ _ := nofun
  boolean _ _ _ := nofun
  list_iff {m _ _} := by
    change (∀ place, _ → m.region place) ↔ True ∧ _
    rw [true_and]
    exact Value.captures_list_iff
  nextIdentity m := m.alike.nextIdentity
  fresh m := by
    have halike : Store.Alike m.region
        (Discipline.renumbered m.first (m.first.nextIdentity + 1))
        (Discipline.renumbered m.second (m.second.nextIdentity + 1)) :=
      ⟨m.alike.size, congrArg (· + 1) m.alike.nextIdentity, m.alike.frames,
        m.alike.closed.outer, m.alike.closed.bound⟩
    exact ⟨⟨_, _, m.region, halike⟩, fun _ => id, rfl, rfl, trivial⟩
  lookup {m place name} hplace _ := by
    refine ⟨?_, fun _ hfound => m.alike.closed.of_lookup? hplace hfound⟩
    simpa [locally] using m.alike.lookup? hplace name
  define {m place name v} _ _ hv := by
    refine ⟨⟨_, _, m.region, m.alike.define place name hv⟩, fun _ => id, rfl, ?_⟩
    exact congrArg (m.second.define place name) v.rename_same.symm
  assign {m _ _ name _ place v} hplace _ _ hv := by
    change Option.Rel _ (m.first.assign? place name v)
      (m.second.assign? place name (v.rename .same))
    rw [Value.rename_same, Store.assign?, Store.assign?, m.alike.find? hplace name]
    cases m.first.find? place name with
    | none => exact .none
    | some target =>
        exact .some ⟨⟨_, _, m.region, m.alike.define target name hv⟩, fun _ => id, rfl, rfl⟩
  size m := m.alike.size
  call {m _ _ _ scope arguments bindings} hclosure harguments hbindings := by
    have hbound (name : String) (v : Value) (hv : bindings.get? name = some v) :
        ∀ target, v.Captures target → m.region target :=
      harguments v (Computation.mem_arguments_of_bindingsOf hbindings hv)
    have hscope (place : FrameId) (h : some scope = some place) : m.region place :=
      Option.some.inj h ▸ hclosure scope .scope
    refine ⟨⟨_, _, _, m.alike.allocate hscope hbound⟩, fun _ => .inl, rfl, ?_, .inr rfl,
      fun place hplace => .inl (hclosure place (.body hplace))⟩
    exact congrArg (Discipline.extended m.second · _) bindings.rename_same.symm
  literal hcode _ _ := hcode
  operator hcode _ := Value.captures_list_iff.mp hcode _ (List.mem_cons_self ..)
  operands hcode _ v hv := Value.captures_list_iff.mp hcode v (List.mem_cons_of_mem _ hv)
  quoted hcode _ := Value.captures_list_iff.mp hcode _ (by simp)
  closure hcode _ _ hplace _ := Value.captures_closure_of_code hcode hplace
  count _ _ := .inr trivial
  ordinary _ := trivial
  parameter _ _ _ := trivial

end Pairing

namespace Store

variable {region : FrameId → Prop} {s t : Store}

/-- Two stores that are alike in a region are alike in every closed region inside it. -/
theorem Alike.restrict (h : Alike region s t) {smaller : FrameId → Prop}
    (hclosed : s.Closed smaller) (hinside : ∀ place, smaller place → region place) :
    Alike smaller s t :=
  ⟨h.size, h.nextIdentity, fun place hplace => h.frames place (hinside place hplace), hclosed⟩

/-- An evaluation that starts in a region where two stores are alike answers the same in
both, and leaves them alike in a region around the first. -/
theorem alike_evaluate (h : Alike region s t) (room : Nat) {v : Value} {place : FrameId}
    (hplace : region place) (hv : ∀ target, v.Captures target → region target) :
    (evaluate room v place).outcome t = (evaluate room v place).outcome s ∧
      ∃ larger, (∀ target, region target → larger target) ∧
        Alike larger ((evaluate room v place).after s) ((evaluate room v place).after t) := by
  have hagree : Pairing.locally.Agree Pairing.locally.value id (evaluate room v place)
      (evaluate room v place) ⟨s, t, region, h⟩ :=
    Pairing.agree_evaluate_same Pairing.lawful_locally rfl (.inl rfl) hplace hv
  obtain ⟨houtcome, n, hgrows, hfirst, hsecond, -⟩ := hagree.outcome_after id
  exact ⟨houtcome.trans (Renaming.outcome_same _), n.region, hgrows, hfirst ▸ hsecond ▸ n.alike⟩

end Store

end Lisplet
