import Lisplet.Store

/-!
# What is bound after a change of the store

A store is changed in two ways: a name is bound in a frame, or a frame is added.
Neither touches any other binding.
-/

namespace Lisplet

namespace Bindings

@[simp]
theorem get?_cons (key name : String) (old : Value) (bindings : Bindings) :
    get? ((key, old) :: bindings) name = if name = key then some old else get? bindings name := by
  rw [get?, List.lookup_cons]
  by_cases hname : name = key
  · simp [hname]
  · rw [beq_false_of_ne hname, if_neg hname]
    rfl

@[simp]
theorem get?_put (bindings : Bindings) (name other : String) (value : Value) :
    (bindings.put name value).get? other =
      if other = name then some value else bindings.get? other := by
  induction bindings with
  | nil => rw [put, get?_cons]
  | cons entry bindings ih =>
      obtain ⟨key, old⟩ := entry
      rw [put, get?_cons]
      by_cases hkey : key = name
      · subst hkey
        rw [if_pos (beq_self_eq_true key), get?_cons]
        by_cases hother : other = key
        · rw [if_pos hother, if_pos hother]
        · rw [if_neg hother, if_neg hother, if_neg hother]
      · rw [if_neg (by simpa using hkey), get?_cons, ih]
        by_cases hother : other = key
        · rw [if_pos hother, if_neg (hother ▸ hkey), if_pos hother]
        · rw [if_neg hother, if_neg hother]

/-- The names that are bound, in the order in which they were first bound. -/
def names (bindings : Bindings) : List String := bindings.map Prod.fst

/-- Binding a name removes no name and keeps the order of the others. -/
theorem names_prefix_put (bindings : Bindings) (name : String) (value : Value) :
    bindings.names <+: (bindings.put name value).names := by
  induction bindings with
  | nil => exact List.nil_prefix
  | cons entry bindings ih =>
      obtain ⟨key, old⟩ := entry
      rw [put]
      split
      · next hkey => rw [← eq_of_beq hkey]; exact List.prefix_rfl
      · exact List.cons_prefix_cons.mpr ⟨rfl, ih⟩

/-- To bind a name again changes no name. -/
theorem names_put_of_isSome {bindings : Bindings} {name : String}
    (hbound : (bindings.get? name).isSome) (value : Value) :
    (bindings.put name value).names = bindings.names := by
  induction bindings with
  | nil => cases hbound
  | cons entry bindings ih =>
      obtain ⟨key, old⟩ := entry
      rw [get?_cons] at hbound
      rw [put]
      split
      · next hkey => rw [← eq_of_beq hkey]; rfl
      · next hkey =>
          rw [if_neg fun h => hkey (beq_iff_eq.mpr h.symm)] at hbound
          exact congrArg (key :: ·) (ih hbound)

end Bindings

namespace Store

theorem exists_bound?_of_lookup? {store : Store} {place : FrameId} {name : String} {value : Value}
    (hfound : store.lookup? place name = some value) :
    ∃ target, store.find? place name = some target ∧ store.bound? target name = some value :=
  Option.bind_eq_some_iff.mp hfound

theorem exists_define_of_assign? {store assigned : Store} {place : FrameId} {name : String}
    {value : Value} (hassigned : store.assign? place name value = some assigned) :
    ∃ target, store.find? place name = some target ∧ store.define target name value = assigned :=
  Option.map_eq_some_iff.mp hassigned

/-- The frame that is found for a name binds it. -/
theorem isSome_bound?_of_find? {store : Store} {place target : FrameId} {name : String}
    (hfound : store.find? place name = some target) : (store.bound? target name).isSome := by
  simpa using (List.find?_eq_some_iff_append.mp hfound).1

@[simp]
theorem size_define (store : Store) (place : FrameId) (name : String) (value : Value) :
    (store.define place name value).frames.size = store.frames.size :=
  Array.size_modify

@[simp]
theorem size_allocate (store : Store) (frame : Frame) :
    (store.allocate frame).2.frames.size = store.frames.size + 1 :=
  Array.size_push ..

@[simp]
theorem frames_define (store : Store) (place other : FrameId) (name : String) (value : Value) :
    (store.define place name value).frames[other]? =
      if place = other then
        (store.frames[other]?).map fun frame =>
          { frame with bindings := frame.bindings.put name value }
      else store.frames[other]? :=
  Array.getElem?_modify

/-- Outer frames are there to stay. -/
@[simp]
theorem outer_define (store : Store) (place other : FrameId) (name : String) (value : Value) :
    ((store.define place name value).frames[other]?).map Frame.outer =
      (store.frames[other]?).map Frame.outer := by
  rw [frames_define]
  split
  · rw [Option.map_map]
    rfl
  · rfl

@[simp]
theorem frames_allocate (store : Store) (frame : Frame) (place : FrameId) :
    (store.allocate frame).2.frames[place]? =
      if place = store.frames.size then some frame else store.frames[place]? :=
  Array.getElem?_push

theorem frames_allocate_of_lt (store : Store) (frame : Frame) {place : FrameId}
    (hplace : place < store.frames.size) :
    (store.allocate frame).2.frames[place]? = store.frames[place]? := by
  rw [frames_allocate, if_neg (Nat.ne_of_lt hplace)]

@[simp]
theorem bound?_define (store : Store) (place other : FrameId) (name key : String)
    (value : Value) :
    (store.define place name value).bound? other key =
      if other = place ∧ key = name ∧ place < store.frames.size then some value
      else store.bound? other key := by
  rw [bound?, bound?, frames_define]
  by_cases hplace : place = other
  · subst hplace
    rw [if_pos rfl]
    by_cases hsize : place < store.frames.size
    · rw [Array.getElem?_eq_getElem hsize]
      simp [Bindings.get?_put, hsize]
    · rw [Array.getElem?_eq_none (Nat.le_of_not_lt hsize)]
      simp [hsize]
  · rw [if_neg hplace, if_neg fun h => hplace h.1.symm]

@[simp]
theorem bound?_allocate (store : Store) (frame : Frame) (place : FrameId) (key : String) :
    (store.allocate frame).2.bound? place key =
      if place = store.frames.size then frame.bindings.get? key else store.bound? place key := by
  rw [bound?, bound?, frames_allocate]
  by_cases hplace : place = store.frames.size
  · rw [if_pos hplace, if_pos hplace, Option.bind_some]
  · rw [if_neg hplace, if_neg hplace]

/-- A chain depends on the outer frames of the frames that it comes to only. -/
theorem chain_go_congr {region : FrameId → Prop} {s t : Store}
    (hsame : ∀ place, region place →
      (t.frames[place]?).map Frame.outer = (s.frames[place]?).map Frame.outer)
    (hclosed : ∀ {place outer : FrameId} {frame : Frame}, region place →
      s.frames[place]? = some frame → frame.outer = some outer → region outer)
    (steps : Nat) {place : FrameId} (hplace : region place) :
    chain.go t steps place = chain.go s steps place := by
  induction steps generalizing place with
  | zero => rfl
  | succ steps ih =>
      have hhere := hsame place hplace
      rw [chain.go, chain.go]
      cases hframe : s.frames[place]? with
      | none =>
          rw [hframe] at hhere
          rw [Option.map_eq_none_iff.mp hhere]
      | some frame =>
          rw [hframe] at hhere
          obtain ⟨other, hother, houter⟩ := Option.map_eq_some_iff.mp hhere
          rw [hother]
          dsimp only
          rw [houter]
          cases hnext : frame.outer with
          | none => rfl
          | some outer => exact congrArg (place :: ·) (ih (hclosed hplace hframe hnext))

def Holds (store : Store) (property : Value → Prop) : Prop :=
  ∀ place name value, store.bound? place name = some value → property value

section Holds

variable {store : Store} {property : Value → Prop}

theorem holds_empty (property : Value → Prop) : empty.Holds property := by
  intro place name value hbound
  simp [bound?, empty] at hbound

theorem Holds.define (h : store.Holds property) (place : FrameId) (name : String) {value : Value}
    (hvalue : property value) : (store.define place name value).Holds property := by
  intro other key old hbound
  rw [bound?_define] at hbound
  split at hbound
  · exact Option.some.inj hbound ▸ hvalue
  · exact h other key old hbound

theorem Holds.allocate (h : store.Holds property) {bindings : Bindings} (outer : Option FrameId)
    (hbindings : ∀ name value, bindings.get? name = some value → property value) :
    (store.allocate ⟨bindings, outer⟩).2.Holds property := by
  intro place name value hbound
  rw [bound?_allocate] at hbound
  split at hbound
  · exact hbindings name value hbound
  · exact h place name value hbound

end Holds

end Store

namespace Computation

theorem lookup_apply (place : FrameId) (name : String) (store : Store) :
    lookup place name store =
      match store.lookup? place name with
      | some value => .ok value store
      | none => .error (.unbound name) store := by
  change (match store.lookup? place name with
    | some value => (pure value : Computation Value)
    | none => throw (Failure.unbound name)) store = _
  cases store.lookup? place name <;> rfl

theorem find_apply (place : FrameId) (name : String) (store : Store) :
    find place name store =
      match store.find? place name with
      | some target => .ok target store
      | none => .error (.unbound name) store := by
  change (match store.find? place name with
    | some target => (pure target : Computation FrameId)
    | none => throw (Failure.unbound name)) store = _
  cases store.find? place name <;> rfl

theorem assign_apply (room : Nat) (place : FrameId) (name : String) (value : Value)
    (store : Store) :
    assign room place (.symbol name) value store =
      match store.assign? place name value with
      | some assigned => .ok () assigned
      | none => .error (.unbound name) store := by
  change (match store.assign? place name value with
    | some assigned => (set assigned : Computation Unit)
    | none => throw (Failure.unbound name)) store = _
  cases store.assign? place name value <;> rfl

/-- What parameters are bound to comes from the arguments, unless it was bound before. -/
theorem mem_of_bindingsOf {parameters arguments : List Value} {bindings result : Bindings}
    {name : String} {value : Value}
    (hresult : bindingsOf parameters arguments bindings = .ok result)
    (hbound : result.get? name = some value) :
    value ∈ arguments ∨ bindings.get? name = some value := by
  fun_induction bindingsOf parameters arguments bindings with
  | case1 bindings key parameters argument arguments ih =>
      rcases ih hresult with hmem | hearlier
      · exact .inl (List.mem_cons_of_mem _ hmem)
      · rw [Bindings.get?_put] at hearlier
        split at hearlier
        · exact .inl (by simp [Option.some.inj hearlier])
        · exact .inr hearlier
  | case2 => cases hresult
  | case3 bindings parameters arguments hpair hother =>
      cases hresult
      exact .inr hbound

/-- What the parameters of a call are bound to are its arguments. -/
theorem mem_arguments_of_bindingsOf {parameters arguments : List Value} {result : Bindings}
    {name : String} {value : Value} (hresult : bindingsOf parameters arguments [] = .ok result)
    (hbound : result.get? name = some value) : value ∈ arguments :=
  (mem_of_bindingsOf hresult hbound).resolve_right nofun

/-- Pairs that all have a property still have it after one more was merged in, if a key
with the property may take the value of the new pair. -/
theorem forall_mem_mergePair {property : Value × Value → Prop} {pairs : List (Value × Value)}
    {pair : Value × Value} (hpairs : ∀ other ∈ pairs, property other) (hpair : property pair)
    (htake : ∀ other, property other → property (other.1, pair.2)) :
    ∀ other ∈ mergePair pairs pair, property other := by
  induction pairs with
  | nil => simpa [mergePair] using hpair
  | cons first pairs ih =>
      obtain ⟨hfirst, hrest⟩ := List.forall_mem_cons.mp hpairs
      obtain ⟨key, value⟩ := first
      rw [mergePair]
      split
      · exact List.forall_mem_cons.mpr ⟨htake _ hfirst, hrest⟩
      · exact List.forall_mem_cons.mpr ⟨hfirst, ih hrest⟩

theorem forall_mem_foldl_mergePair {property : Value × Value → Prop}
    {pairs merged : List (Value × Value)} (hpairs : ∀ pair ∈ pairs, property pair)
    (hmerged : ∀ pair ∈ merged, property pair)
    (htake : ∀ pair other, property pair → property other → property (other.1, pair.2)) :
    ∀ pair ∈ pairs.foldl mergePair merged, property pair := by
  induction pairs generalizing merged with
  | nil => exact hmerged
  | cons pair pairs ih =>
      obtain ⟨hpair, hrest⟩ := List.forall_mem_cons.mp hpairs
      exact ih hrest (forall_mem_mergePair hmerged hpair fun other => htake pair other hpair)

end Computation

namespace Datum

mutual

/-- Loading a datum takes identities from the supply and gives none back. -/
theorem le_load : (d : Datum) → (next : Identity) → next ≤ (d.load next).2
  | number _, _ | boolean _, _ | symbol _, _ => Nat.le_refl _
  | list items, next => by
    rw [load]
    exact Nat.le_trans (Nat.le_succ next) (le_loadAll items (next + 1))

theorem le_loadAll : (items : List Datum) → (next : Identity) → next ≤ (loadAll items next).2
  | [], _ => Nat.le_refl _
  | item :: items, next => by
    rw [loadAll]
    exact Nat.le_trans (le_load item next) (le_loadAll items _)

end

/-- A property of everything that is made of numbers, booleans, symbols and lists. -/
structure HoldsOfData (property : Value → Prop) : Prop where
  number : ∀ x, property (.number x)
  boolean : ∀ b, property (.boolean b)
  symbol : ∀ name, property (.symbol name)
  list : ∀ identity {items}, (∀ v ∈ items, property v) → property (.list identity items)

mutual

theorem HoldsOfData.load {property : Value → Prop} (h : HoldsOfData property) : (d : Datum) →
    (next : Identity) → property (d.load next).1
  | .number x, _ => h.number x
  | .boolean b, _ => h.boolean b
  | .symbol name, _ => h.symbol name
  | .list items, next => h.list next (h.loadAll items (next + 1))

theorem HoldsOfData.loadAll {property : Value → Prop} (h : HoldsOfData property) :
    (items : List Datum) → (next : Identity) → ∀ v ∈ (loadAll items next).1, property v
  | [], _ => by simp [Datum.loadAll]
  | item :: items, next => by
    rw [Datum.loadAll]
    exact List.forall_mem_cons.mpr ⟨h.load item next, h.loadAll items _⟩

end

end Datum

end Lisplet
