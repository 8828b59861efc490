import Mathlib.Data.List.Find
import Mathlib.Order.WellFounded
import Lisplet.Proofs.Evaluation.Frames
import Lisplet.Proofs.Evaluation.Simulation

/-!
# Stores that are the same in other names

Two stores may hold the same in other names, and hand out other places and identities
next.  An evaluation then gives the same in other names, and leaves stores of which this is
still true.
-/

namespace Lisplet

/-! ## What comes from the supply -/

namespace Value

/-- Every identity in a value, and every mark, is one of the first `next`. -/
inductive Numbered (next : Identity) : Value → Prop where
  | number {x : Number} : (∀ mark, x = .nan mark → mark < next) → Numbered next (.number x)
  | boolean (b : Bool) : Numbered next (.boolean b)
  | symbol (name : String) : Numbered next (.symbol name)
  | list {identity : Identity} {items : List Value} : identity < next →
      (∀ v ∈ items, Numbered next v) → Numbered next (.list identity items)
  | primitive {identity : Identity} (operation : Primitive) : identity < next →
      Numbered next (.primitive identity operation)
  | closure {identity : Identity} {parameters : List Value} {body : Value} {scope : FrameId} :
      identity < next → (∀ v ∈ parameters, Numbered next v) → Numbered next body →
      Numbered next (.closure identity parameters body scope)

theorem Numbered.mono {next later : Identity} (hle : next ≤ later) {v : Value}
    (h : v.Numbered next) : v.Numbered later := by
  induction h with
  | number hmark => exact .number fun mark hx => Nat.lt_of_lt_of_le (hmark mark hx) hle
  | boolean b => exact .boolean b
  | symbol name => exact .symbol name
  | list hidentity _ ih => exact .list (Nat.lt_of_lt_of_le hidentity hle) ih
  | primitive operation hidentity =>
      exact .primitive operation (Nat.lt_of_lt_of_le hidentity hle)
  | closure hidentity _ _ hparameters hbody =>
      exact .closure (Nat.lt_of_lt_of_le hidentity hle) hparameters hbody

@[simp]
theorem numbered_list_iff {next identity : Identity} {items : List Value} :
    (Value.list identity items).Numbered next ↔
      identity < next ∧ ∀ v ∈ items, v.Numbered next :=
  ⟨fun h => by cases h; exact ⟨‹_›, ‹_›⟩, fun h => .list h.1 h.2⟩

end Value

namespace Store

/-- A store has handed out every place and every identity in a value. -/
structure Supplied (s : Store) (v : Value) : Prop where
  places : v.Scoped s.frames.size
  identities : v.Numbered s.nextIdentity

theorem Supplied.mono {s t : Store} {v : Value} (h : s.Supplied v)
    (hsize : s.frames.size ≤ t.frames.size) (hnext : s.nextIdentity ≤ t.nextIdentity) :
    t.Supplied v :=
  ⟨h.places.mono hsize, h.identities.mono hnext⟩

@[simp]
theorem supplied_list_iff {s : Store} {identity : Identity} {items : List Value} :
    s.Supplied (.list identity items) ↔ identity < s.nextIdentity ∧ ∀ v ∈ items, s.Supplied v := by
  constructor
  · rintro ⟨hplaces, hidentities⟩
    obtain ⟨hidentity, hitems⟩ := Value.numbered_list_iff.mp hidentities
    exact ⟨hidentity, fun v hv => ⟨Value.scoped_list_iff.mp hplaces v hv, hitems v hv⟩⟩
  · rintro ⟨hidentity, hitems⟩
    exact ⟨.list fun v hv => (hitems v hv).places,
      .list hidentity fun v hv => (hitems v hv).identities⟩

/-- All that is bound has its identities from the store. -/
structure Numbered (s : Store) : Prop where
  pos : 0 < s.nextIdentity
  bound : s.Holds (Value.Numbered s.nextIdentity)

variable {s : Store}

theorem Numbered.define (hs : s.Numbered) (place : FrameId) (name : String) {v : Value}
    (hv : v.Numbered s.nextIdentity) : (s.define place name v).Numbered :=
  ⟨hs.pos, hs.bound.define place name hv⟩

theorem Numbered.allocate (hs : s.Numbered) {bindings : Bindings} (outer : Option FrameId)
    (hbindings : ∀ name v, bindings.get? name = some v → v.Numbered s.nextIdentity) :
    (s.allocate ⟨bindings, outer⟩).2.Numbered :=
  ⟨hs.pos, hs.bound.allocate outer hbindings⟩

theorem Numbered.renumbered (hs : s.Numbered) {next : Identity} (hle : s.nextIdentity ≤ next) :
    (Discipline.renumbered s next).Numbered :=
  ⟨Nat.lt_of_lt_of_le hs.pos hle, fun _ _ _ hbound => (hs.bound _ _ _ hbound).mono hle⟩

theorem Numbered.supplied (hs : s.Numbered) (hwell : s.WellFormed) {place : FrameId}
    {name : String} {v : Value} (hbound : s.bound? place name = some v) : s.Supplied v :=
  ⟨hwell.scopes hbound, hs.bound place name v hbound⟩

/-! ## Stores with other supplies -/

/-- One store holds what another one holds in other names, and both go on handing out
places and identities one by one. -/
structure Renamed (r : Renaming) (s t : Store) : Prop where
  place : ∀ count, r.place (s.frames.size + count) = t.frames.size + count
  identity : ∀ count, r.identity (s.nextIdentity + count) = t.nextIdentity + count
  outer : ∀ place, (t.frames[r.place place]?).map Frame.outer =
    (s.frames[place]?).map fun frame => frame.outer.map r.place
  bound : ∀ place name, t.bound? (r.place place) name =
    (s.bound? place name).map (Value.rename r)

theorem renamed_same (s : Store) : Renamed .same s s where
  place _ := rfl
  identity _ := rfl
  outer place := by simp [Renaming.same]
  bound place name := by simp

namespace Renamed

variable {r : Renaming} {s t : Store} {place : FrameId}

theorem size (h : Renamed r s t) : t.frames.size = r.place s.frames.size := (h.place 0).symm

theorem nextIdentity (h : Renamed r s t) : t.nextIdentity = r.identity s.nextIdentity :=
  (h.identity 0).symm

theorem lt_size_iff (h : Renamed r s t) :
    r.place place < t.frames.size ↔ place < s.frames.size := by
  rw [h.size, r.place_strictMono.lt_iff_lt]

theorem eq_size_iff (h : Renamed r s t) :
    r.place place = t.frames.size ↔ place = s.frames.size := by
  rw [h.size, r.place_inj]

/-- A chain is at most as long as its first place is large, in both stores. -/
theorem chain_go (h : Renamed r s t) (hs : s.WellFormed) {steps more : Nat}
    (hsteps : place < steps) (hmore : place < more) :
    chain.go t more (r.place place) = (chain.go s steps place).map r.place := by
  induction steps generalizing more place with
  | zero => exact absurd hsteps (Nat.not_lt_zero _)
  | succ steps ih =>
      obtain ⟨more, rfl⟩ := Nat.exists_eq_succ_of_ne_zero (Nat.ne_zero_of_lt hmore)
      have houter := h.outer place
      rw [chain.go, chain.go]
      cases hframe : s.frames[place]? with
      | none =>
          rw [hframe] at houter
          rw [Option.map_eq_none_iff.mp houter]
          rfl
      | some frame =>
          rw [hframe] at houter
          obtain ⟨other, hother, hsame⟩ := Option.map_eq_some_iff.mp houter
          rw [hother, List.map_cons]
          dsimp only at hsame ⊢
          rw [hsame]
          cases hnext : frame.outer with
          | none => rfl
          | some outer =>
              have hlt := hs.outer_lt hframe hnext
              exact congrArg (_ :: ·) (ih (Nat.lt_of_lt_of_le hlt (Nat.le_of_lt_succ hsteps))
                (Nat.lt_of_lt_of_le hlt (Nat.le_of_lt_succ hmore)))

theorem find? (h : Renamed r s t) (hs : s.WellFormed) (place : FrameId) (name : String) :
    t.find? (r.place place) name = (s.find? place name).map r.place := by
  have hle : place ≤ r.place place := r.place_strictMono.le_apply
  rw [Store.find?, Store.find?, chain, chain,
    h.chain_go hs (Nat.lt_succ_self place) (Nat.lt_succ_of_le hle), List.find?_map]
  refine congrArg (Option.map r.place) (List.find?_congr fun other _ => ?_)
  rw [Function.comp_apply, h.bound, Option.isSome_map]

theorem lookup? (h : Renamed r s t) (hs : s.WellFormed) (place : FrameId) (name : String) :
    t.lookup? (r.place place) name = (s.lookup? place name).map (Value.rename r) := by
  rw [Store.lookup?, Store.lookup?, h.find? hs]
  cases s.find? place name with
  | none => rfl
  | some target => exact h.bound target name

theorem define (h : Renamed r s t) (place : FrameId) (name : String) (v : Value) :
    Renamed r (s.define place name v) (t.define (r.place place) name (v.rename r)) where
  place count := by
    rw [size_define, size_define]
    exact h.place count
  identity := h.identity
  outer other := by
    have hsame := congrArg (Option.map (Option.map r.place)) (s.outer_define place other name v)
    rw [Option.map_map, Option.map_map] at hsame
    rw [outer_define]
    exact (h.outer other).trans hsame.symm
  bound other key := by
    rw [bound?_define, bound?_define]
    simp only [r.place_inj, h.lt_size_iff, h.bound]
    split <;> rfl

theorem allocate (h : Renamed r s t) (bindings : Bindings) (outer : Option FrameId) :
    Renamed r (s.allocate ⟨bindings, outer⟩).2
      (t.allocate ⟨bindings.rename r, outer.map r.place⟩).2 where
  place count := by
    have hplace := h.place (1 + count)
    rw [← Nat.add_assoc, ← Nat.add_assoc] at hplace
    rwa [size_allocate, size_allocate]
  identity := h.identity
  outer place := by
    rw [frames_allocate, frames_allocate]
    simp only [h.eq_size_iff]
    split
    · rfl
    · exact h.outer place
  bound place name := by
    rw [bound?_allocate, bound?_allocate]
    simp only [h.eq_size_iff]
    split
    · exact bindings.get?_rename r name
    · exact h.bound place name

theorem renumbered (h : Renamed r s t) (count : Nat) :
    Renamed r (Discipline.renumbered s (s.nextIdentity + count))
      (Discipline.renumbered t (t.nextIdentity + count)) where
  place := h.place
  identity later := by
    have hidentity := h.identity (count + later)
    rwa [← Nat.add_assoc, ← Nat.add_assoc] at hidentity
  outer := h.outer
  bound := h.bound

end Renamed

end Store

namespace Pairing

structure Renumbering (r : Renaming) where
  first : Store
  second : Store
  renamed : Store.Renamed r first second
  wellFormed : first.WellFormed
  numbered : first.Numbered

/-- Two runs that use the same in other names. -/
def renumbering (r : Renaming) : Pairing where
  Moment := Renumbering r
  first := Renumbering.first
  second := Renumbering.second
  grows m n := m.first.Extends n.first ∧ m.first.nextIdentity ≤ n.first.nextIdentity
  names := r
  identity m identity := identity < m.first.nextIdentity
  value m v := m.first.Supplied v
  frame m place := place < m.first.frames.size
  code m v := m.first.Supplied v
  failure _ := True
  roomier := False

theorem later_define {r : Renaming} (m : Renumbering r) (place : FrameId) (name : String)
    {v : Value} (hv : m.first.Supplied v) :
    (renumbering r).Later m (m.first.define place name v)
      (m.second.define (r.place place) name (v.rename r)) :=
  ⟨⟨_, _, m.renamed.define place name v, m.wellFormed.define place name hv.places,
    m.numbered.define place name hv.identities⟩,
    ⟨m.first.extends_define place name v, Nat.le_refl _⟩, rfl, rfl⟩

theorem lawful_renumbering (r : Renaming) : (renumbering r).Lawful where
  grows_refl m := ⟨.refl m.first, Nat.le_refl _⟩
  grows_trans h hlater := ⟨h.1.trans hlater.1, Nat.le_trans h.2 hlater.2⟩
  identity_mono hgrows hidentity := Nat.lt_of_lt_of_le hidentity hgrows.2
  value_mono hgrows hv := hv.mono hgrows.1.size_le hgrows.2
  frame_mono hgrows hplace := Nat.lt_of_lt_of_le hplace hgrows.1.size_le
  code_mono hgrows hv := hv.mono hgrows.1.size_le hgrows.2
  identity_zero m := m.numbered.pos
  number hmark := ⟨.number _, .number hmark⟩
  boolean _ b := ⟨.boolean b, .boolean b⟩
  list_iff := Store.supplied_list_iff
  nextIdentity m := m.renamed.nextIdentity
  fresh m := ⟨⟨_, _, m.renamed.renumbered 1, ⟨m.wellFormed.outer_lt, m.wellFormed.scopes⟩,
    m.numbered.renumbered (Nat.le_succ _)⟩, ⟨.refl m.first, Nat.le_succ _⟩, rfl, rfl,
    Nat.lt_succ_self _⟩
  lookup {m place name} _ _ := by
    refine ⟨m.renamed.lookup? m.wellFormed place name, fun v hfound => ?_⟩
    obtain ⟨target, -, hbound⟩ := Store.exists_bound?_of_lookup? hfound
    exact m.numbered.supplied m.wellFormed hbound
  define {m place name v} _ _ hv := later_define m place name hv
  assign {m _ _ name _ place v} _ _ _ hv := by
    change Option.Rel _ (m.first.assign? place name v)
      (m.second.assign? (r.place place) name (v.rename r))
    rw [Store.assign?, Store.assign?, m.renamed.find? m.wellFormed]
    cases m.first.find? place name with
    | none => exact .none
    | some target => exact .some (later_define m target name hv)
  size m := m.renamed.size
  call {m _ _ _ scope _ bindings} hclosure harguments hbindings := by
    have hbound (name : String) (v : Value) (hv : bindings.get? name = some v) :
        m.first.Supplied v :=
      harguments v (Computation.mem_arguments_of_bindingsOf hbindings hv)
    cases hclosure.places with
    | closure _ hbody hscope =>
        cases hclosure.identities with
        | closure _ _ hnumbered =>
            have hextends := m.first.extends_allocate ⟨bindings, some scope⟩
            have hwell : (m.first.allocate ⟨bindings, some scope⟩).2.WellFormed :=
              m.wellFormed.allocate (fun _ h => Option.some.inj h ▸ hscope) fun name v hv =>
                (hbound name v hv).places
            exact ⟨⟨_, _, m.renamed.allocate bindings (some scope), hwell,
              m.numbered.allocate _ fun name v hv => (hbound name v hv).identities⟩,
              ⟨hextends, Nat.le_refl _⟩, rfl, rfl, m.first.size_lt_size_allocate _,
              hbody.mono hextends.size_le, hnumbered⟩
  literal hcode _ _ := hcode
  operator hcode _ := (Store.supplied_list_iff.mp hcode).2 _ (List.mem_cons_self ..)
  operands hcode _ v hv := (Store.supplied_list_iff.mp hcode).2 v (List.mem_cons_of_mem _ hv)
  quoted hcode _ := (Store.supplied_list_iff.mp hcode).2 _ (by simp)
  closure {m _ _ _ inner parameters body _} hcode _ _ hplace hfresh := by
    have hitems := (Store.supplied_list_iff.mp hcode).2
    have hparameters := (Store.supplied_list_iff.mp (hitems (.list inner parameters) (by simp))).2
    have hbody := hitems body (by simp)
    exact ⟨.closure (fun v hv => (hparameters v hv).places) hbody.places hplace,
      .closure hfresh (fun v hv => (hparameters v hv).identities) hbody.identities⟩
  count _ _ := .inr trivial
  ordinary _ := trivial
  parameter _ _ _ := trivial

end Pairing

namespace Store

variable {r : Renaming} {s t : Store}

/-- In a renamed store an evaluation gives the same in other names, and leaves stores that
are the same in other names. -/
theorem Renamed.evaluate (h : Renamed r s t) (hwell : s.WellFormed) (hnumbered : s.Numbered)
    (room : Nat) {v : Value} {place : FrameId} (hv : s.Supplied v)
    (hplace : place < s.frames.size) :
    (evaluate room (v.rename r) (r.place place)).outcome t =
        r.outcome (Value.rename r) ((evaluate room v place).outcome s) ∧
      Renamed r ((evaluate room v place).after s)
        ((evaluate room (v.rename r) (r.place place)).after t) ∧
      ((evaluate room v place).after s).Numbered ∧
      ∀ answer, (evaluate room v place).outcome s = .ok answer →
        ((evaluate room v place).after s).Supplied answer := by
  have hagree := (Pairing.agreesWithin (Pairing.lawful_renumbering r) room).evaluate
    (m := ⟨s, t, h, hwell, hnumbered⟩) (.inl rfl) hplace hv
  obtain ⟨houtcome, n, -, hfirst, hsecond, hanswer⟩ := hagree.outcome_after id
  exact ⟨houtcome, hfirst ▸ hsecond ▸ n.renamed, hfirst ▸ n.numbered, hfirst ▸ hanswer⟩

end Store

end Lisplet
