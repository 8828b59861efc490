import Lisplet.Proofs.Evaluation.Confinement

/-!
# Definitions stay in their frame

A definition binds in the frame where it stands, and a call evaluates the body of a
closure in a frame of its own.  So a call gives no new name to a frame that is there
already; and if no code that it comes across assigns, it leaves all of them as they are,
whatever it defines.
-/

namespace Lisplet

/-! ## Names -/

namespace Store

def names? (s : Store) (place : FrameId) : Option (List String) :=
  (s.frames[place]?).map fun frame => frame.bindings.names

theorem names?_define_of_ne (s : Store) {place other : FrameId} (hne : other ≠ place)
    (name : String) (v : Value) : (s.define place name v).names? other = s.names? other := by
  rw [names?, names?, frames_define, if_neg hne.symm]

theorem names?_define_of_bound {s : Store} {place : FrameId} {name : String}
    (hbound : (s.bound? place name).isSome) (v : Value) (other : FrameId) :
    (s.define place name v).names? other = s.names? other := by
  by_cases hother : other = place
  · subst hother
    rw [names?, names?, frames_define, if_pos rfl]
    rw [bound?] at hbound
    cases hframe : s.frames[other]? with
    | none => rfl
    | some frame =>
        rw [hframe] at hbound
        exact congrArg some (Bindings.names_put_of_isSome hbound v)
  · exact s.names?_define_of_ne hother name v

theorem names?_allocate (s : Store) (frame : Frame) {place : FrameId}
    (hplace : place < s.frames.size) : (s.allocate frame).2.names? place = s.names? place := by
  rw [names?, names?, frames_allocate_of_lt _ _ hplace]

end Store

namespace Discipline

/-- No frame of an earlier store gets a new name. -/
def naming (start : Store) : Discipline where
  store s := start.frames.size ≤ s.frames.size
  grows s t := s.frames.size ≤ t.frames.size ∧
    ∀ place < start.frames.size, t.names? place = s.names? place
  value _ _ := True
  frame _ place := start.frames.size ≤ place
  code _ _ := True
  failure _ := True

theorem lawful_naming (start : Store) : (naming start).Lawful where
  grows_refl _ := ⟨Nat.le_refl _, fun _ _ => rfl⟩
  grows_trans h hlater := ⟨Nat.le_trans h.1 hlater.1, fun place hlt =>
    (hlater.2 place hlt).trans (h.2 place hlt)⟩
  value_mono _ _ := trivial
  frame_mono _ hplace := hplace
  code_mono _ _ := trivial
  number _ _ := trivial
  boolean _ _ := trivial
  list_iff := ⟨fun _ _ _ => trivial, fun _ => trivial⟩
  renumber _ hs := ⟨hs, Nat.le_refl _, fun _ _ => rfl⟩
  lookup _ _ _ := trivial
  define {s place name v} hs hplace _ := by
    have hsize := s.size_define place name v
    refine ⟨Nat.le_trans hs (Nat.le_of_eq hsize.symm), Nat.le_of_eq hsize.symm, ?_⟩
    intro other hlt
    exact s.names?_define_of_ne (Nat.ne_of_lt (Nat.lt_of_lt_of_le hlt hplace)) name v
  -- An assignment may go to any frame, but to a name that the frame has already.
  assign {s _ _ _ name _ place v} hs _ _ _ _ hassigned := by
    obtain ⟨target, htarget, rfl⟩ := Store.exists_define_of_assign? hassigned
    have hsize := s.size_define target name v
    refine ⟨Nat.le_trans hs (Nat.le_of_eq hsize.symm), Nat.le_of_eq hsize.symm, ?_⟩
    exact fun other _ =>
      Store.names?_define_of_bound (Store.isSome_bound?_of_find? htarget) v other
  call {s _ _ _ scope _ bindings} hs _ _ _ := by
    have hle := Nat.le_of_lt (s.size_lt_size_allocate ⟨bindings, some scope⟩)
    refine ⟨Nat.le_trans hs hle, ⟨hle, fun place hlt => ?_⟩, hs, trivial⟩
    exact s.names?_allocate _ (Nat.lt_of_lt_of_le hlt hs)
  literal _ _ _ := trivial
  operator _ _ := trivial
  operands _ _ _ _ := trivial
  quoted _ _ := trivial
  closure _ _ _ _ := trivial
  count _ _ := .inr trivial
  ordinary _ := trivial
  parameter _ _ _ := trivial

end Discipline

namespace Store

/-- A call binds new names in no frame that is there, whatever is called. -/
theorem names?_after_apply (s : Store) (room : Nat) (place : FrameId) (f : Value)
    (arguments : List Value) {other : FrameId} (hother : other < s.frames.size) :
    ((apply room f arguments place).after s).names? other = s.names? other :=
  (Discipline.keeps_apply (Discipline.lawful_naming s) (Nat.le_refl s.frames.size) trivial
    fun _ _ => trivial).after.2.2 other hother

end Store

/-! ## Code that does not assign -/

theorem SpecialForm.eq_of_ofHead? {head : Value} {form : SpecialForm}
    (h : SpecialForm.ofHead? head = some form) : head = .symbol form.keyword := by
  cases head with
  | symbol name => rw [keyword_of_ofKeyword? h]
  | number | boolean | list | primitive | closure => cases h

namespace Value

/-- A symbol stands nowhere in a value. -/
inductive Lacks (name : String) : Value → Prop where
  | number (x : Number) : Lacks name (.number x)
  | boolean (b : Bool) : Lacks name (.boolean b)
  | symbol {other : String} : other ≠ name → Lacks name (.symbol other)
  | list {identity : Identity} {items : List Value} :
      (∀ v ∈ items, Lacks name v) → Lacks name (.list identity items)
  | primitive (identity : Identity) (operation : Primitive) :
      Lacks name (.primitive identity operation)
  | closure {identity : Identity} {parameters : List Value} {body : Value} {scope : FrameId} :
      (∀ v ∈ parameters, Lacks name v) → Lacks name body →
      Lacks name (.closure identity parameters body scope)

@[simp]
theorem lacks_list_iff {name : String} {identity : Identity} {items : List Value} :
    (Value.list identity items).Lacks name ↔ ∀ v ∈ items, v.Lacks name :=
  ⟨fun h => by cases h; assumption, .list⟩

/-- A value without assignments. -/
def Pure (v : Value) : Prop := v.Lacks SpecialForm.assignment.keyword

end Value

namespace Store

variable {start s : Store} {region : FrameId → Prop}

/-- Nothing that is bound inside a region, or new, assigns. -/
structure PureInside (start : Store) (region : FrameId → Prop) (s : Store) : Prop where
  confined : start.Confined region s
  pure : ∀ {place name v}, start.Inside region s place → s.bound? place name = some v → v.Pure

theorem PureInside.define (hs : start.PureInside region s) {place : FrameId} {name : String}
    {v : Value} (hplace : start.Inside region s place)
    (hv : ∀ target, v.Captures target → start.Inside region s target) (hpure : v.Pure) :
    start.PureInside region (s.define place name v) where
  confined := hs.confined.define hplace hv
  pure := by
    intro other key w hother hbound
    rw [Inside, size_define] at hother
    rw [bound?_define] at hbound
    split at hbound
    · exact Option.some.inj hbound ▸ hpure
    · exact hs.pure hother hbound

theorem PureInside.allocate (hs : start.PureInside region s) {bindings : Bindings}
    {outer : Option FrameId}
    (hconfined : start.Confined region (s.allocate ⟨bindings, outer⟩).2)
    (hbindings : ∀ name v, bindings.get? name = some v → v.Pure) :
    start.PureInside region (s.allocate ⟨bindings, outer⟩).2 where
  confined := hconfined
  pure := by
    intro place name v hplace hbound
    rw [inside_allocate hs.confined.size_le] at hplace
    rw [bound?_allocate] at hbound
    split at hbound
    · exact hbindings name v hbound
    · next hold => exact hs.pure (hplace.resolve_right hold) hbound

end Store

namespace Discipline

/-- Only code without assignments is evaluated, and only new frames are changed. -/
def pure (start : Store) (region : FrameId → Prop) : Discipline where
  store := start.PureInside region
  grows s t := s.frames.size ≤ t.frames.size ∧
    ∀ place < start.frames.size, t.frames[place]? = s.frames[place]?
  value s v := (confined start region).value s v ∧ v.Pure
  frame s place := start.frames.size ≤ place ∧ place < s.frames.size
  code s v := (confined start region).code s v ∧ v.Pure
  failure _ := True

theorem lawful_pure (start : Store) (region : FrameId → Prop) : (pure start region).Lawful where
  grows_refl _ := ⟨Nat.le_refl _, fun _ _ => rfl⟩
  grows_trans h hlater := ⟨Nat.le_trans h.1 hlater.1, fun place hlt =>
    (hlater.2 place hlt).trans (h.2 place hlt)⟩
  value_mono hgrows hv := ⟨fun place hplace => (hv.1 place hplace).mono hgrows.1, hv.2⟩
  frame_mono hgrows hplace := ⟨hplace.1, Nat.lt_of_lt_of_le hplace.2 hgrows.1⟩
  code_mono hgrows hv := ⟨fun place hplace => (hv.1 place hplace).mono hgrows.1, hv.2⟩
  number _ x := ⟨fun _ => nofun, .number x⟩
  boolean _ b := ⟨fun _ => nofun, .boolean b⟩
  list_iff := by
    intro s identity items
    refine ⟨fun h v hv => ?_, fun h => ?_⟩
    · exact ⟨Value.captures_list_iff.mp h.1 v hv, Value.lacks_list_iff.mp h.2 v hv⟩
    · exact ⟨Value.captures_list_iff.mpr fun v hv => (h v hv).1, .list fun v hv => (h v hv).2⟩
  renumber hle hs :=
    ⟨⟨((lawful_confined start region).renumber hle hs.confined).1, hs.pure⟩, Nat.le_refl _,
      fun _ _ => rfl⟩
  lookup hs hplace hfound := by
    obtain ⟨target, htarget, hbound⟩ := Store.exists_bound?_of_lookup? hfound
    have hinside := hs.confined.closed.of_find? (.inr hplace) htarget
    exact ⟨fun _ => hs.confined.closed.bound hinside hbound, hs.pure hinside hbound⟩
  define {s place name v} hs hplace hv := by
    refine ⟨hs.define (.inr hplace) hv.1 hv.2, Nat.le_of_eq (s.size_define place name v).symm, ?_⟩
    intro other hlt
    rw [Store.frames_define, if_neg]
    rintro rfl
    exact absurd hlt (Nat.not_lt_of_le hplace.1)
  assign _ _ hcode hhead _ _ := by
    cases Value.lacks_list_iff.mp hcode.2 _ (List.mem_cons_self ..) with
    | symbol hother => exact absurd (SpecialForm.eq_of_ofHead? hhead) (by simpa using hother)
    | _ => exact absurd (SpecialForm.eq_of_ofHead? hhead) nofun
  call {s identity parameters body scope arguments bindings} hs hclosure harguments hbindings := by
    obtain ⟨hconfined, hgrows, -, hbody⟩ := (lawful_confined start region).call hs.confined
      hclosure.1 (fun v hv => (harguments v hv).1) hbindings
    have hbound (name : String) (v : Value) (hv : bindings.get? name = some v) : v.Pure :=
      (harguments v (Computation.mem_arguments_of_bindingsOf hbindings hv)).2
    have hlt := s.size_lt_size_allocate ⟨bindings, some scope⟩
    refine ⟨hs.allocate hconfined hbound, ⟨hgrows.1, fun place hplace => ?_⟩,
      ⟨hs.confined.size_le, hlt⟩, hbody, ?_⟩
    · exact s.frames_allocate_of_lt _ (Nat.lt_of_lt_of_le hplace hs.confined.size_le)
    · cases hclosure.2 with
      | closure _ hpure => exact hpure
  literal hcode _ _ := hcode
  operator hcode _ :=
    ⟨Value.captures_list_iff.mp hcode.1 _ (List.mem_cons_self ..),
      Value.lacks_list_iff.mp hcode.2 _ (List.mem_cons_self ..)⟩
  operands hcode _ v hv :=
    ⟨Value.captures_list_iff.mp hcode.1 v (List.mem_cons_of_mem _ hv),
      Value.lacks_list_iff.mp hcode.2 v (List.mem_cons_of_mem _ hv)⟩
  quoted hcode _ :=
    ⟨Value.captures_list_iff.mp hcode.1 _ (by simp), Value.lacks_list_iff.mp hcode.2 _ (by simp)⟩
  closure {s _ _ fresh inner parameters body place} hcode hhead hsymbols hplace := by
    have hitems := Value.lacks_list_iff.mp hcode.2
    have hparameters := hitems (.list inner parameters) (by simp)
    exact ⟨(lawful_confined start region).closure hcode.1 hhead hsymbols (.inr hplace),
      .closure (Value.lacks_list_iff.mp hparameters) (hitems body (by simp))⟩
  count _ _ := .inr trivial
  ordinary _ := trivial
  parameter _ _ _ := trivial

theorem founded_pure (start : Store) (region : FrameId → Prop) : (pure start region).Founded where
  global {s} hs := by
    obtain ⟨hconfined, hgrows, -⟩ := (founded_confined start region).global hs.confined
    refine ⟨hs.allocate hconfined (by simp [Bindings.get?]), ⟨hgrows.1, fun place hplace => ?_⟩,
      hs.confined.size_le, s.size_lt_size_allocate _⟩
    exact s.frames_allocate_of_lt _ (Nat.lt_of_lt_of_le hplace hs.confined.size_le)
  primitive _ identity operation := ⟨fun _ => nofun, .primitive identity operation⟩

end Discipline

namespace Store

/-- What a call can come across: the frames of the closures among what is called and its
arguments, and what these lead to. -/
def ReachesCall (s : Store) (f : Value) (arguments : List Value) : FrameId → Prop :=
  s.Reaches fun root => ∃ v ∈ f :: arguments, v.Captures root

/-- A call of code that does not assign leaves every frame as it was, whatever it
defines. -/
theorem frames_after_apply (s : Store) (room : Nat) (place : FrameId) (f : Value)
    (arguments : List Value) (hpure : ∀ v ∈ f :: arguments, v.Pure)
    (hbound : ∀ other name v, s.ReachesCall f arguments other → s.bound? other name = some v →
      v.Pure) {other : FrameId} (hother : other < s.frames.size) :
    ((apply room f arguments place).after s).frames[other]? = s.frames[other]? := by
  have hstart : s.PureInside (s.ReachesCall f arguments) s := by
    refine ⟨confined_start (closed_reaches _ _), fun hinside => hbound _ _ _ ?_⟩
    exact hinside.resolve_right fun hnew => Nat.not_lt_of_le hnew.1 hnew.2
  have hvalue (v : Value) (hv : v ∈ f :: arguments) :
      (Discipline.pure s (s.ReachesCall f arguments)).value s v :=
    ⟨fun _ hcaptures => .inl (.root ⟨v, hv, hcaptures⟩), hpure v hv⟩
  obtain ⟨hf, harguments⟩ := List.forall_mem_cons.mp hvalue
  exact (Discipline.keeps_apply (Discipline.lawful_pure s _) hstart hf harguments).after.2.2 other
    hother

end Store

end Lisplet
