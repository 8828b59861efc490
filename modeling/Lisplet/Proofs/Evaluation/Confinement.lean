import Lisplet.Proofs.Evaluation.Frames

/-!
# Confinement of effects

An evaluation gets at a frame only by following outer frames and the closures that it
comes across.  So it changes no frame that cannot be reached in this way from the frame
it starts in and from its expression, and what can be reached afterwards could be reached
before or is new.
-/

namespace Lisplet

/-! ## Reachable frames -/

/-- A closure over a frame stands in a value, in a list or in the body of a closure, at
any depth. -/
inductive Value.Captures : Value → FrameId → Prop where
  | item {identity : Identity} {items : List Value} {v : Value} {place : FrameId} :
      v ∈ items → Captures v place → Captures (.list identity items) place
  | scope {identity : Identity} {parameters : List Value} {body : Value} {place : FrameId} :
      Captures (.closure identity parameters body place) place
  | body {identity : Identity} {parameters : List Value} {body : Value} {scope place : FrameId} :
      Captures body place → Captures (.closure identity parameters body scope) place

theorem Value.captures_list_iff {identity : Identity} {items : List Value}
    {property : FrameId → Prop} :
    (∀ place, (Value.list identity items).Captures place → property place) ↔
      ∀ v ∈ items, ∀ place, v.Captures place → property place := by
  constructor
  · intro h v hv place hplace
    exact h place (.item hv hplace)
  · rintro h place ⟨hv, hplace⟩
    exact h _ hv place hplace

/-- A closure captures its frame, and what its code does. -/
theorem Value.captures_closure_of_code {identity inner fresh : Identity} {head body : Value}
    {parameters : List Value} {scope : FrameId} {property : FrameId → Prop}
    (hcode : ∀ place, (Value.list identity [head, .list inner parameters, body]).Captures place →
      property place) (hscope : property scope) :
    ∀ place, (Value.closure fresh parameters body scope).Captures place → property place := by
  rintro place (_ | _ | hbody)
  · exact hscope
  · exact captures_list_iff.mp hcode body (by simp) place hbody

theorem Value.Scoped.lt_of_captures {count : Nat} {v : Value} {place : FrameId}
    (h : v.Scoped count) (hplace : v.Captures place) : place < count := by
  induction hplace with
  | item hv _ ih => exact ih (scoped_list_iff.mp h _ hv)
  | scope => cases h; assumption
  | body _ ih =>
      cases h with
      | closure _ hbody _ => exact ih hbody

/-- Data hold no closures. -/
theorem Value.holdsOfData_not_captures :
    Datum.HoldsOfData fun v => ∀ place, ¬ v.Captures place where
  number _ _ := nofun
  boolean _ _ := nofun
  symbol _ _ := nofun
  list _ _ h := captures_list_iff.mpr h

namespace Store

variable {s : Store} {roots region : FrameId → Prop}

/-- The frames that can be reached from some frames: these and, for each of them, its
outer frame and the frames of all closures in its bindings. -/
inductive Reaches (s : Store) (roots : FrameId → Prop) : FrameId → Prop where
  | root {place : FrameId} : roots place → Reaches s roots place
  | outer {place outer : FrameId} {frame : Frame} : Reaches s roots place →
      s.frames[place]? = some frame → frame.outer = some outer → Reaches s roots outer
  | bound {place target : FrameId} {name : String} {v : Value} : Reaches s roots place →
      s.bound? place name = some v → v.Captures target → Reaches s roots target

def ReachesFrom (s : Store) (place : FrameId) (v : Value) : FrameId → Prop :=
  s.Reaches fun root => root = place ∨ v.Captures root

/-- Frames from which nothing else can be reached. -/
structure Closed (s : Store) (region : FrameId → Prop) : Prop where
  outer : ∀ {place outer : FrameId} {frame : Frame}, region place →
    s.frames[place]? = some frame → frame.outer = some outer → region outer
  bound : ∀ {place target : FrameId} {name : String} {v : Value}, region place →
    s.bound? place name = some v → v.Captures target → region target

theorem closed_reaches (s : Store) (roots : FrameId → Prop) : s.Closed (s.Reaches roots) :=
  ⟨.outer, .bound⟩

/-- What is reachable is the least of the closed regions around the roots. -/
theorem Closed.of_reaches (hclosed : s.Closed region) (hroots : ∀ root, roots root → region root)
    {place : FrameId} (hplace : s.Reaches roots place) : region place := by
  induction hplace with
  | root h => exact hroots _ h
  | outer _ hframe houter ih => exact hclosed.outer ih hframe houter
  | bound _ hbound hcaptures ih => exact hclosed.bound ih hbound hcaptures

theorem Closed.congr {other : FrameId → Prop} (hclosed : s.Closed region)
    (hsame : ∀ place, region place ↔ other place) : s.Closed other :=
  (funext fun place => propext (hsame place) : region = other) ▸ hclosed

/-- A chain does not leave a closed region. -/
theorem Closed.of_mem_chain_go (hclosed : s.Closed region) {steps : Nat} {place : FrameId}
    (hplace : region place) : ∀ other ∈ chain.go s steps place, region other := by
  induction steps generalizing place with
  | zero => simp [chain.go]
  | succ steps ih =>
      rw [chain.go]
      split
      · simp
      · next frame hframe =>
          refine List.forall_mem_cons.mpr ⟨hplace, ?_⟩
          split
          · simp
          · next outer houter => exact ih (hclosed.outer hplace hframe houter)

theorem Closed.of_find? (hclosed : s.Closed region) {place target : FrameId} {name : String}
    (hplace : region place) (hfound : s.find? place name = some target) : region target :=
  hclosed.of_mem_chain_go hplace target (List.mem_of_find?_eq_some hfound)

theorem Closed.of_lookup? (hclosed : s.Closed region) {place : FrameId} {name : String} {v : Value}
    (hplace : region place) (hfound : s.lookup? place name = some v) :
    ∀ target, v.Captures target → region target := by
  obtain ⟨frame, hframe, hbound⟩ := exists_bound?_of_lookup? hfound
  exact fun target => hclosed.bound (hclosed.of_find? hplace hframe) hbound

theorem Closed.define (hclosed : s.Closed region) (place : FrameId) (name : String) {v : Value}
    (hv : ∀ target, v.Captures target → region target) :
    (s.define place name v).Closed region where
  outer := by
    intro other outer frame hother hframe houter
    rw [frames_define] at hframe
    split at hframe
    · obtain ⟨old, hold, rfl⟩ := Option.map_eq_some_iff.mp hframe
      exact hclosed.outer hother hold houter
    · exact hclosed.outer hother hframe houter
  bound := by
    intro other target key w hother hbound hcaptures
    rw [bound?_define] at hbound
    split at hbound
    · exact hv target (Option.some.inj hbound ▸ hcaptures)
    · exact hclosed.bound hother hbound hcaptures

/-- A new frame belongs to a region if what it points to does. -/
theorem Closed.allocate (hclosed : s.Closed region) {bindings : Bindings} {outer : Option FrameId}
    (houter : ∀ place, outer = some place → region place)
    (hbindings : ∀ name v, bindings.get? name = some v →
      ∀ target, v.Captures target → region target) :
    (s.allocate ⟨bindings, outer⟩).2.Closed
      fun place => region place ∨ place = s.frames.size where
  outer := by
    intro place target frame hplace hframe htarget
    rw [frames_allocate] at hframe
    split at hframe
    · cases hframe
      exact .inl (houter target htarget)
    · next hold => exact .inl (hclosed.outer (hplace.resolve_right hold) hframe htarget)
  bound := by
    intro place target name v hplace hbound hcaptures
    rw [bound?_allocate] at hbound
    split at hbound
    · exact .inl (hbindings name v hbound target hcaptures)
    · next hold => exact .inl (hclosed.bound (hplace.resolve_right hold) hbound hcaptures)

/-- In a well-formed store only frames that are there can be reached. -/
theorem WellFormed.lt_of_reaches (hs : s.WellFormed)
    (hroots : ∀ root, roots root → root < s.frames.size) {place : FrameId}
    (hplace : s.Reaches roots place) : place < s.frames.size := by
  have hclosed : s.Closed (· < s.frames.size) :=
    ⟨fun hlt hframe houter => Nat.lt_trans (hs.outer_lt hframe houter) hlt,
      fun _ hbound hcaptures => (hs.scopes hbound).lt_of_captures hcaptures⟩
  exact hclosed.of_reaches hroots hplace

/-! ## Stores that differ inside a region -/

section Confined

variable {start : Store}

/-- In a region of an earlier store, or new since then. -/
def Inside (start : Store) (region : FrameId → Prop) (s : Store) (place : FrameId) : Prop :=
  region place ∨ start.frames.size ≤ place ∧ place < s.frames.size

/-- Since an earlier store nothing has changed outside a region, and nothing that was
there outside of it can be reached from inside. -/
structure Confined (start : Store) (region : FrameId → Prop) (s : Store) : Prop where
  size_le : start.frames.size ≤ s.frames.size
  outside : ∀ place < start.frames.size, ¬ region place → s.frames[place]? = start.frames[place]?
  closed : s.Closed (start.Inside region s)

theorem Inside.mono {t : Store} (hle : s.frames.size ≤ t.frames.size) {place : FrameId}
    (h : start.Inside region s place) : start.Inside region t place :=
  h.imp_right fun hnew => ⟨hnew.1, Nat.lt_of_lt_of_le hnew.2 hle⟩

theorem confined_start (hclosed : start.Closed region) : start.Confined region start where
  size_le := Nat.le_refl _
  outside _ _ _ := rfl
  closed := hclosed.congr fun _ =>
    ⟨.inl, fun h => h.resolve_right fun hnew => Nat.not_lt_of_le hnew.1 hnew.2⟩

theorem Confined.define (hs : start.Confined region s) {place : FrameId} {name : String} {v : Value}
    (hplace : start.Inside region s place)
    (hv : ∀ target, v.Captures target → start.Inside region s target) :
    start.Confined region (s.define place name v) where
  size_le := (size_define s place name v).symm ▸ hs.size_le
  outside := by
    intro other hlt hother
    rw [frames_define, if_neg, hs.outside other hlt hother]
    rintro rfl
    exact hplace.elim hother fun hnew => absurd hlt (Nat.not_lt_of_le hnew.1)
  closed := by
    refine (hs.closed.define place name hv).congr fun other => ?_
    rw [Inside, Inside, size_define]

theorem inside_allocate (hle : start.frames.size ≤ s.frames.size) (frame : Frame)
    (place : FrameId) :
    start.Inside region (s.allocate frame).2 place ↔
      start.Inside region s place ∨ place = s.frames.size := by
  rw [Inside, Inside, size_allocate, Nat.lt_succ_iff_lt_or_eq]
  constructor
  · rintro (h | ⟨hnew, h | h⟩)
    · exact .inl (.inl h)
    · exact .inl (.inr ⟨hnew, h⟩)
    · exact .inr h
  · rintro ((h | ⟨hnew, h⟩) | rfl)
    · exact .inl h
    · exact .inr ⟨hnew, .inl h⟩
    · exact .inr ⟨hle, .inr rfl⟩

theorem Confined.allocate (hs : start.Confined region s) {bindings : Bindings}
    {outer : Option FrameId} (houter : ∀ place, outer = some place → start.Inside region s place)
    (hbindings : ∀ name v, bindings.get? name = some v →
      ∀ target, v.Captures target → start.Inside region s target) :
    start.Confined region (s.allocate ⟨bindings, outer⟩).2 where
  size_le := Nat.le_trans hs.size_le (Nat.le_of_lt (s.size_lt_size_allocate _))
  outside := by
    intro place hlt hplace
    rw [frames_allocate_of_lt _ _ (Nat.lt_of_lt_of_le hlt hs.size_le), hs.outside place hlt hplace]
  closed := (hs.closed.allocate houter hbindings).congr fun place =>
    (inside_allocate hs.size_le _ place).symm

end Confined

end Store

/-! ## The discipline of a region -/

namespace Discipline

variable {start : Store} {region : FrameId → Prop}

/-- Only what is inside a region, or new, is used and changed. -/
def confined (start : Store) (region : FrameId → Prop) : Discipline where
  store := start.Confined region
  grows s t := s.frames.size ≤ t.frames.size ∧ s.nextIdentity ≤ t.nextIdentity
  value s v := ∀ place, v.Captures place → start.Inside region s place
  frame := start.Inside region
  code s v := ∀ place, v.Captures place → start.Inside region s place
  failure _ := True

theorem lawful_confined (start : Store) (region : FrameId → Prop) :
    (confined start region).Lawful where
  grows_refl _ := ⟨Nat.le_refl _, Nat.le_refl _⟩
  grows_trans h hlater := ⟨Nat.le_trans h.1 hlater.1, Nat.le_trans h.2 hlater.2⟩
  value_mono hgrows hv place hplace := (hv place hplace).mono hgrows.1
  frame_mono hgrows hplace := hplace.mono hgrows.1
  code_mono hgrows hv place hplace := (hv place hplace).mono hgrows.1
  number _ _ _ := nofun
  boolean _ _ _ := nofun
  list_iff := Value.captures_list_iff
  renumber hle hs :=
    ⟨⟨hs.size_le, hs.outside, hs.closed.outer, hs.closed.bound⟩, Nat.le_refl _, hle⟩
  lookup hs hplace hfound := hs.closed.of_lookup? hplace hfound
  define {s place name v} hs hplace hv :=
    ⟨hs.define hplace hv, Nat.le_of_eq (s.size_define place name v).symm, Nat.le_refl _⟩
  assign {s _ _ _ name _ place v} hs hplace _ _ hv hassigned := by
    obtain ⟨target, htarget, rfl⟩ := Store.exists_define_of_assign? hassigned
    exact ⟨hs.define (hs.closed.of_find? hplace htarget) hv,
      Nat.le_of_eq (s.size_define target name v).symm, Nat.le_refl _⟩
  call {s _ _ _ scope arguments bindings} hs hclosure harguments hbindings := by
    have hbound (name : String) (v : Value) (hv : bindings.get? name = some v) :
        ∀ target, v.Captures target → start.Inside region s target :=
      harguments v (Computation.mem_arguments_of_bindingsOf hbindings hv)
    have hscope (place : FrameId) (h : some scope = some place) : start.Inside region s place :=
      Option.some.inj h ▸ hclosure scope .scope
    have hle := Nat.le_of_lt (s.size_lt_size_allocate ⟨bindings, some scope⟩)
    refine ⟨hs.allocate hscope hbound, ⟨hle, Nat.le_refl _⟩, ?_, ?_⟩
    · exact (Store.inside_allocate hs.size_le _ _).mpr (.inr rfl)
    · exact fun place hplace => (hclosure place (.body hplace)).mono hle
  literal hcode _ _ := hcode
  operator hcode _ := Value.captures_list_iff.mp hcode _ (List.mem_cons_self ..)
  operands hcode _ v hv := Value.captures_list_iff.mp hcode v (List.mem_cons_of_mem _ hv)
  quoted hcode _ := Value.captures_list_iff.mp hcode _ (by simp)
  closure hcode _ _ hplace := Value.captures_closure_of_code hcode hplace
  count _ _ := .inr trivial
  ordinary _ := trivial
  parameter _ _ _ := trivial

theorem founded_confined (start : Store) (region : FrameId → Prop) :
    (confined start region).Founded where
  global {s} hs :=
    ⟨hs.allocate (by simp) (by simp [Bindings.get?]),
      ⟨Nat.le_of_lt (s.size_lt_size_allocate _), Nat.le_refl _⟩,
      (Store.inside_allocate hs.size_le _ _).mpr (.inr rfl)⟩
  primitive _ _ _ _ := nofun

end Discipline

/-! ## What an evaluation can do -/

namespace Store

variable (s : Store) (room : Nat) (v : Value) (place : FrameId)

theorem keeps_evaluate_confined :
    (Discipline.confined s (s.ReachesFrom place v)).Keeps
      (Discipline.confined s (s.ReachesFrom place v)).value (evaluate room v place) s :=
  Discipline.keeps_evaluate (Discipline.lawful_confined s _) (confined_start (s.closed_reaches _))
    (.inl (.root (.inl rfl))) fun _ hcaptures => .inl (.root (.inr hcaptures))

/-- An evaluation leaves every frame that it cannot reach as it was. -/
theorem frames_after_evaluate {other : FrameId} (hother : other < s.frames.size)
    (hunreached : ¬ s.ReachesFrom place v other) :
    ((evaluate room v place).after s).frames[other]? = s.frames[other]? :=
  (s.keeps_evaluate_confined room v place).after.1.outside other hother hunreached

/-- What can be reached from a frame after an evaluation could be reached by it before, or
is new. -/
theorem reaches_after_evaluate {other : FrameId}
    (hreached : ((evaluate room v place).after s).Reaches (· = place) other) :
    s.Inside (s.ReachesFrom place v) ((evaluate room v place).after s) other := by
  have hconfined := (s.keeps_evaluate_confined room v place).after.1
  refine hconfined.closed.of_reaches ?_ hreached
  rintro root rfl
  exact .inl (.root (.inl rfl))

/-- The same of the value that an evaluation gives. -/
theorem reachesFrom_answer {answer : Value} {t : Store}
    (hrun : evaluate room v place s = .ok answer t) {other : FrameId}
    (hreached : t.ReachesFrom place answer other) :
    s.Inside (s.ReachesFrom place v) t other := by
  obtain ⟨hconfined, -, hanswer⟩ := (s.keeps_evaluate_confined room v place).ok hrun
  refine hconfined.closed.of_reaches ?_ hreached
  rintro root (rfl | hcaptures)
  · exact .inl (.root (.inl rfl))
  · exact hanswer root hcaptures

end Store

end Lisplet
