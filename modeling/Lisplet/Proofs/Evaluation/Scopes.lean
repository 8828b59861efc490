import Lisplet.Proofs.Evaluation.Frames

/-!
# Nested scopes

A name is looked up along the chain of a frame, and the innermost binding counts.  So a
definition is seen from those frames whose chains come to its frame before they come to
another binding of the name.  An assignment goes to the frame of the innermost binding and
is seen from the frames that find the name there.  A call puts a new frame before a chain,
where the last of several equal parameters counts.  Nothing else changes what a lookup from
any frame gives.
-/

namespace Lisplet

namespace Store

variable {s t : Store} {place : FrameId}

/-! ## Chains -/

/-- There is one walk from a frame only. -/
theorem Walk.eq {places others : List FrameId} (h : s.Walk place places)
    (hother : s.Walk place others) : places = others := by
  induction h generalizing others with
  | last hframe houter =>
      cases hother with
      | last => rfl
      | outwards hframe' houter' =>
          cases hframe.symm.trans hframe'
          cases houter.symm.trans houter'
  | outwards hframe houter _ ih =>
      cases hother with
      | last hframe' houter' =>
          cases hframe.symm.trans hframe'
          cases houter.symm.trans houter'
      | outwards hframe' houter' hrest =>
          cases hframe.symm.trans hframe'
          cases houter.symm.trans houter'
          exact congrArg (_ :: ·) (ih hrest)

theorem WellFormed.walk_iff (hs : s.WellFormed) (hplace : place < s.frames.size)
    {places : List FrameId} : s.Walk place places ↔ s.chain place = places :=
  ⟨(hs.walk_chain hplace).eq, fun h => h ▸ hs.walk_chain hplace⟩

/-- Steps that the chain does not need make no difference. -/
theorem WellFormed.chain_go_eq (hs : s.WellFormed) {steps : Nat} (hsteps : place < steps)
    (hplace : place < s.frames.size) : chain.go s steps place = s.chain place :=
  (hs.walk_go hsteps hplace).eq (hs.walk_chain hplace)

@[simp]
theorem chain_define (s : Store) (target : FrameId) (name : String) (v : Value)
    (place : FrameId) : (s.define target name v).chain place = s.chain place :=
  chain_go_congr (fun other _ => s.outer_define target other name v)
    (fun _ _ _ => trivial) (place + 1) trivial

/-- A frame that is there leads to older frames only, never to a new one. -/
theorem WellFormed.chain_go_allocate (hs : s.WellFormed) (frame : Frame) (steps : Nat)
    (hplace : place < s.frames.size) :
    chain.go (s.allocate frame).2 steps place = chain.go s steps place := by
  have hsame (other : FrameId) (hother : other < s.frames.size) :
      ((s.allocate frame).2.frames[other]?).map Frame.outer =
        (s.frames[other]?).map Frame.outer := by
    rw [frames_allocate_of_lt _ _ hother]
  exact chain_go_congr hsame
    (fun hother hframe houter => Nat.lt_trans (hs.outer_lt hframe houter) hother) steps hplace

/-- The new frame comes before the chain of its outer frame. -/
theorem WellFormed.chain_allocate_size (hs : s.WellFormed) (bindings : Bindings)
    {outer : Option FrameId} (houter : ∀ place, outer = some place → place < s.frames.size) :
    (s.allocate ⟨bindings, outer⟩).2.chain s.frames.size =
      s.frames.size :: outer.elim [] s.chain := by
  rw [chain, chain.go, frames_allocate, if_pos rfl]
  cases outer with
  | none => rfl
  | some place =>
      have hplace := houter place rfl
      have hrest := hs.chain_go_allocate ⟨bindings, some place⟩ s.frames.size hplace
      exact congrArg (s.frames.size :: ·) (hrest.trans (hs.chain_go_eq hplace hplace))

/-! ## Lookups -/

/-- A lookup takes the first binding on the chain. -/
theorem lookup?_eq_findSome? (s : Store) (place : FrameId) (name : String) :
    s.lookup? place name = (s.chain place).findSome? (s.bound? · name) := by
  rw [lookup?, find?]
  induction s.chain place with
  | nil => rfl
  | cons frame frames ih =>
      rw [List.find?_cons, List.findSome?_cons]
      cases hbound : s.bound? frame name with
      | none => exact ih
      | some v => exact hbound

/-- From a frame outwards, another one comes before any that binds a name: a binding of
the name there is the one that counts. -/
def Exposes (s : Store) (place : FrameId) (name : String) (target : FrameId) : Prop :=
  ∃ nearer further, s.Walk place (nearer ++ target :: further) ∧
    ∀ frame ∈ nearer, s.bound? frame name = none

def OnChain (s : Store) (place frame : FrameId) : Prop :=
  ∃ nearer further, s.Walk place (nearer ++ frame :: further)

theorem WellFormed.onChain_iff (hs : s.WellFormed) (hplace : place < s.frames.size)
    {frame : FrameId} : s.OnChain place frame ↔ frame ∈ s.chain place := by
  rw [List.mem_iff_append]
  simp only [OnChain, hs.walk_iff hplace]

theorem WellFormed.exposes_iff (hs : s.WellFormed) (hplace : place < s.frames.size)
    {name : String} {target : FrameId} :
    s.Exposes place name target ↔ ∃ nearer further,
      s.chain place = nearer ++ target :: further ∧
        ∀ frame ∈ nearer, s.bound? frame name = none := by
  simp only [Exposes, hs.walk_iff hplace]

theorem lt_size_of_isSome_bound? {name : String} (hbound : (s.bound? place name).isSome) :
    place < s.frames.size := by
  refine Nat.lt_of_not_le fun hle => ?_
  rw [bound?, Array.getElem?_eq_none hle] at hbound
  cases hbound

/-- A name is found in the frame that is exposed and binds it. -/
theorem WellFormed.find?_eq_some_iff (hs : s.WellFormed) (hplace : place < s.frames.size)
    {name : String} {target : FrameId} :
    s.find? place name = some target ↔
      s.Exposes place name target ∧ (s.bound? target name).isSome := by
  rw [hs.exposes_iff hplace, find?, List.find?_eq_some_iff_append, and_comm]
  simp

/-- A name is found nowhere if no frame on the chain binds it. -/
theorem WellFormed.find?_eq_none_iff (hs : s.WellFormed) (hplace : place < s.frames.size)
    {name : String} :
    s.find? place name = none ↔ ∀ frame, s.OnChain place frame → s.bound? frame name = none := by
  simp [find?, hs.onChain_iff hplace]

section Definition

variable {name : String} {target : FrameId} {v : Value}

/-- Past frames that do not bind the name there is the new binding. -/
theorem findSome?_define_of_exposed {nearer further : List FrameId}
    (htarget : target < s.frames.size) (hnearer : ∀ frame ∈ nearer, s.bound? frame name = none) :
    (nearer ++ target :: further).findSome? ((s.define target name v).bound? · name) = some v := by
  induction nearer with
  | nil => simp [bound?_define, htarget]
  | cons frame nearer ih =>
      obtain ⟨hframe, hrest⟩ := List.forall_mem_cons.mp hnearer
      rw [List.cons_append, List.findSome?_cons]
      by_cases hsame : frame = target
      · rw [bound?_define, if_pos ⟨hsame, rfl, htarget⟩]
      · rw [bound?_define, if_neg fun h => hsame h.1, hframe]
        exact ih hrest

/-- A new binding that comes behind another one, or not at all, is not found. -/
theorem findSome?_define_of_hidden {places : List FrameId}
    (hhidden : ¬ ∃ nearer further, places = nearer ++ target :: further ∧
      ∀ frame ∈ nearer, s.bound? frame name = none) :
    places.findSome? ((s.define target name v).bound? · name) =
      places.findSome? (s.bound? · name) := by
  induction places with
  | nil => rfl
  | cons frame places ih =>
      have hne : frame ≠ target := by
        rintro rfl
        exact hhidden ⟨[], places, rfl, by simp⟩
      rw [List.findSome?_cons, List.findSome?_cons, bound?_define, if_neg fun h => hne h.1]
      cases hbound : s.bound? frame name with
      | some w => rfl
      | none =>
          -- a frame that does not bind the name hides nothing from the ones behind it
          refine ih ?_
          rintro ⟨nearer, further, rfl, hnearer⟩
          exact hhidden
            ⟨frame :: nearer, further, rfl, List.forall_mem_cons.mpr ⟨hbound, hnearer⟩⟩

theorem WellFormed.lookup?_define_of_exposes (hs : s.WellFormed) (htarget : target < s.frames.size)
    (hplace : place < s.frames.size) (h : s.Exposes place name target) (v : Value) :
    (s.define target name v).lookup? place name = some v := by
  obtain ⟨nearer, further, hchain, hnearer⟩ := (hs.exposes_iff hplace).mp h
  rw [lookup?_eq_findSome?, chain_define, hchain]
  exact findSome?_define_of_exposed htarget hnearer

theorem WellFormed.lookup?_define_of_not_exposes (hs : s.WellFormed)
    (hplace : place < s.frames.size) {key : String}
    (h : ¬ (key = name ∧ s.Exposes place name target)) (v : Value) :
    (s.define target name v).lookup? place key = s.lookup? place key := by
  rw [lookup?_eq_findSome?, lookup?_eq_findSome?, chain_define]
  by_cases hkey : key = name
  · subst hkey
    exact findSome?_define_of_hidden fun hexposed =>
      h ⟨rfl, (hs.exposes_iff hplace).mpr hexposed⟩
  · simp only [bound?_define, hkey, false_and, and_false, if_false]

/-- To bind a name again where it is bound changes nothing about where names are found. -/
theorem find?_define (hbound : (s.bound? target name).isSome) (v : Value) (place : FrameId)
    (key : String) :
    (s.define target name v).find? place key = s.find? place key := by
  have hsame (frame : FrameId) :
      ((s.define target name v).bound? frame key).isSome = (s.bound? frame key).isSome := by
    rw [bound?_define]
    split
    · next h =>
        obtain ⟨rfl, rfl, -⟩ := h
        exact hbound.symm
    · rfl
  simp only [find?, chain_define, hsame]

end Definition

/-- What the frames of a chain bind is not changed by a new frame. -/
theorem WellFormed.findSome?_allocate (hs : s.WellFormed) (frame : Frame)
    (hplace : place < s.frames.size) (name : String) :
    (s.chain place).findSome? ((s.allocate frame).2.bound? · name) = s.lookup? place name := by
  have hold : ∀ other ∈ s.chain place, other < s.frames.size := fun other hother =>
    Nat.lt_of_le_of_lt (hs.le_of_mem_walk (hs.walk_chain hplace) other hother) hplace
  rw [lookup?_eq_findSome?]
  generalize s.chain place = places at hold
  induction places with
  | nil => rfl
  | cons other places ih =>
      obtain ⟨hhere, hrest⟩ := List.forall_mem_cons.mp hold
      rw [List.findSome?_cons, List.findSome?_cons, bound?_allocate, if_neg (Nat.ne_of_lt hhere),
        ih hrest]

theorem WellFormed.lookup?_allocate (hs : s.WellFormed) (frame : Frame)
    (hplace : place < s.frames.size) (name : String) :
    (s.allocate frame).2.lookup? place name = s.lookup? place name := by
  rw [← hs.findSome?_allocate frame hplace, lookup?_eq_findSome?, chain,
    hs.chain_go_allocate frame _ hplace, chain]

/-- A name that the new frame does not bind is looked up from the outer one. -/
theorem WellFormed.lookup?_allocate_size (hs : s.WellFormed) (bindings : Bindings)
    {outer : Option FrameId} (houter : ∀ place, outer = some place → place < s.frames.size)
    (name : String) :
    (s.allocate ⟨bindings, outer⟩).2.lookup? s.frames.size name =
      (bindings.get? name).or (outer.bind (s.lookup? · name)) := by
  rw [lookup?_eq_findSome?, hs.chain_allocate_size bindings houter, List.findSome?_cons,
    bound?_allocate, if_pos rfl]
  cases bindings.get? name with
  | some v => rfl
  | none =>
      cases outer with
      | none => rfl
      | some place => exact hs.findSome?_allocate _ (houter place rfl) name

end Store

/-! ## The bindings of a call -/

namespace Computation

variable {parameters arguments : List Value} {bindings result : Bindings} {name : String}

/-- What cannot be bound is the first parameter that is no symbol. -/
theorem bindingsOf_eq_error_iff (hlength : parameters.length = arguments.length) {other : Value} :
    bindingsOf parameters arguments bindings = .error other ↔
      parameters.find? (!SpecialForm.isSymbol ·) = some other := by
  fun_induction bindingsOf parameters arguments bindings with
  | case1 bindings name parameters argument arguments ih =>
      rw [ih (Nat.succ.inj hlength), List.find?_cons]
      rfl
  | case2 bindings first parameters argument arguments hsymbol =>
      have hfirst : SpecialForm.isSymbol first = false := by
        cases first with
        | symbol name => exact absurd rfl (hsymbol name)
        | _ => rfl
      simp [hfirst]
  | case3 parameters arguments bindings _ hother =>
      cases parameters with
      | nil => simp
      | cons first parameters =>
          obtain ⟨argument, arguments, rfl⟩ := List.exists_cons_of_length_eq_add_one hlength.symm
          exact absurd rfl (hother _ _ _ _ rfl)

/-- A name that no parameter has is bound as before. -/
theorem get?_bindingsOf_of_notMem (hresult : bindingsOf parameters arguments bindings = .ok result)
    (hname : .symbol name ∉ parameters) : result.get? name = bindings.get? name := by
  fun_induction bindingsOf parameters arguments bindings with
  | case1 bindings key parameters argument arguments ih =>
      obtain ⟨hne, hrest⟩ := not_or.mp (mt List.mem_cons.mpr hname)
      rw [ih hresult hrest, Bindings.get?_put, if_neg fun h => hne (congrArg Value.symbol h)]
  | case2 => cases hresult
  | case3 =>
      cases hresult
      rfl

/-- Of several parameters with one name the last counts. -/
theorem get?_bindingsOf_of_last (hresult : bindingsOf parameters arguments bindings = .ok result)
    {i : Nat} {argument : Value} (hparameter : parameters[i]? = some (.symbol name))
    (hargument : arguments[i]? = some argument)
    (hlast : ∀ later, i < later → parameters[later]? ≠ some (.symbol name)) :
    result.get? name = some argument := by
  fun_induction bindingsOf parameters arguments bindings generalizing i with
  | case1 bindings key parameters first arguments ih =>
      cases i with
      | zero =>
          have hname : .symbol name ∉ parameters := by
            intro hmem
            obtain ⟨j, hj⟩ := List.mem_iff_getElem?.mp hmem
            exact hlast (j + 1) (Nat.succ_pos j) hj
          cases hparameter
          cases hargument
          rw [get?_bindingsOf_of_notMem hresult hname, Bindings.get?_put, if_pos rfl]
      | succ i =>
          refine ih hresult hparameter hargument fun later hlater => ?_
          exact hlast (later + 1) (Nat.succ_lt_succ hlater)
  | case2 => cases hresult
  | case3 parameters arguments bindings _ hother =>
      cases parameters with
      | nil => cases hparameter
      | cons first parameters =>
          cases arguments with
          | nil => cases hargument
          | cons argument arguments => exact absurd rfl (hother _ _ _ _ rfl)

/-! ## The operations of a frame -/

variable {s t : Store} {place other : FrameId}

theorem outcome_lookup (s : Store) (place : FrameId) (name : String) :
    (lookup place name).outcome s = (s.lookup? place name).elim (.error (.unbound name)) .ok := by
  rw [outcome, lookup_apply]
  cases s.lookup? place name <;> rfl

theorem outcome_find (s : Store) (place : FrameId) (name : String) :
    (find place name).outcome s = (s.find? place name).elim (.error (.unbound name)) .ok := by
  rw [outcome, find_apply]
  cases s.find? place name <;> rfl

theorem outcome_find_eq_ok_iff : (find place name).outcome s = .ok other ↔
    s.find? place name = some other := by
  rw [outcome_find]
  cases s.find? place name <;> simp

/-- The failure that shows a value, unless the value nests too deeply to be written. -/
def refusal (room : Nat) (v : Value) (cause : Datum → Failure) : Failure :=
  if v.datum.writingDepth ≤ room then cause v.datum else .depthExceeded

theorem bindParameters_of_length_ne (room : Nat) (s : Store) (outer : Option FrameId)
    (hlength : parameters.length ≠ arguments.length) :
    bindParameters room parameters arguments outer s =
      .error (refusal room (.list 0 parameters)
        (.parameterCount parameters.length arguments.length)) s := by
  rw [bindParameters, if_neg hlength]
  rfl

theorem bindParameters_of_find? (room : Nat) (s : Store) (outer : Option FrameId) {v : Value}
    (hlength : parameters.length = arguments.length)
    (hfound : parameters.find? (!SpecialForm.isSymbol ·) = some v) :
    bindParameters room parameters arguments outer s =
      .error (refusal room v .boundNotSymbol) s := by
  rw [bindParameters, if_pos hlength, (bindingsOf_eq_error_iff hlength).mpr hfound]
  rfl

/-- Symbols for the arguments are bound in a new frame. -/
theorem exists_bindParameters_eq_ok (room : Nat) (s : Store) (outer : Option FrameId)
    (hlength : parameters.length = arguments.length)
    (hsymbols : ∀ parameter ∈ parameters, SpecialForm.isSymbol parameter = true) :
    ∃ bindings, bindingsOf parameters arguments [] = .ok bindings ∧
      bindParameters room parameters arguments outer s =
        .ok s.frames.size (s.allocate ⟨bindings, outer⟩).2 := by
  cases hresult : bindingsOf parameters arguments [] with
  | error other =>
      have hfound := (bindingsOf_eq_error_iff hlength).mp hresult
      have hsymbol := hsymbols other (List.mem_of_find?_eq_some hfound)
      simpa [hsymbol] using List.find?_some hfound
  | ok bindings =>
      refine ⟨bindings, rfl, ?_⟩
      rw [bindParameters, if_pos hlength, hresult]
      rfl

end Computation

namespace Store

open Lisplet.Computation

variable {s t : Store} {place : FrameId} {name : String}

/-- A change after which a name has a value at some frames, while every other lookup from
a frame of the first store gives what it gave. -/
def Updates (s t : Store) (name : String) (v : Value) (sees : FrameId → Prop) : Prop :=
  ∀ place < s.frames.size,
    (sees place → (lookup place name).outcome t = .ok v) ∧
    ∀ key, ¬ (key = name ∧ sees place) →
      (lookup place key).outcome t = (lookup place key).outcome s

theorem WellFormed.updates_define (hs : s.WellFormed) {target : FrameId}
    (htarget : target < s.frames.size) (name : String) (v : Value) :
    s.Updates (s.define target name v) name v (s.Exposes · name target) := by
  intro place hplace
  refine ⟨fun hexposed => ?_, fun key hkey => ?_⟩
  · rw [outcome_lookup, hs.lookup?_define_of_exposes htarget hplace hexposed]
    rfl
  · rw [outcome_lookup, outcome_lookup, hs.lookup?_define_of_not_exposes hplace hkey]

theorem Updates.congr {v : Value} {sees others : FrameId → Prop} (h : s.Updates t name v sees)
    (hsame : ∀ place < s.frames.size, sees place ↔ others place) : s.Updates t name v others := by
  intro place hplace
  rw [← hsame place hplace]
  exact h place hplace

/-- A name that no frame on the chain binds cannot be assigned. -/
theorem WellFormed.assign_eq_error (hs : s.WellFormed) (hplace : place < s.frames.size)
    (hunbound : ∀ frame, s.OnChain place frame → s.bound? frame name = none) (room : Nat)
    (v : Value) : assign room place (.symbol name) v s = .error (.unbound name) s := by
  rw [assign_apply, assign?, (hs.find?_eq_none_iff hplace).mpr hunbound]
  rfl

/-- An assignment goes to the frame that is found, and is seen from where this frame is
found.  All names are found where they were. -/
theorem WellFormed.updates_assign (hs : s.WellFormed) (hplace : place < s.frames.size)
    {frame : FrameId} (hframe : s.OnChain place frame) (hbound : (s.bound? frame name).isSome)
    (room : Nat) (v : Value) :
    ∃ target t, find place name s = .ok target s ∧ s.Exposes place name target ∧
      (s.bound? target name).isSome ∧ assign room place (.symbol name) v s = .ok () t ∧
      s.Updates t name v (fun other => (find other name).outcome s = .ok target) ∧
      ∀ other key, (find other key).outcome t = (find other key).outcome s := by
  obtain ⟨target, hfound⟩ : ∃ target, s.find? place name = some target := by
    refine Option.ne_none_iff_exists'.mp fun hnone => ?_
    rw [(hs.find?_eq_none_iff hplace).mp hnone frame hframe] at hbound
    cases hbound
  obtain ⟨hexposed, htarget⟩ := (hs.find?_eq_some_iff hplace).mp hfound
  refine ⟨target, s.define target name v, ?_, hexposed, htarget, ?_, ?_, fun other key => ?_⟩
  · rw [find_apply, hfound]
  · rw [assign_apply, assign?, hfound]
    rfl
  · refine (hs.updates_define (lt_size_of_isSome_bound? htarget) name v).congr ?_
    intro other hother
    rw [outcome_find_eq_ok_iff, hs.find?_eq_some_iff hother, and_iff_left htarget]
  · rw [outcome_find, outcome_find, find?_define htarget]

/-- A store after a new frame was put before the chain of another, with arguments for
parameters. -/
structure Opened (s t : Store) (parameters arguments : List Value) (outer : Option FrameId) :
    Prop where
  /-- The last parameter of a name has its argument. -/
  parameter : ∀ (i : Nat) name argument, parameters[i]? = some (.symbol name) →
    (∀ later, i < later → parameters[later]? ≠ some (.symbol name)) →
    arguments[i]? = some argument → (lookup s.frames.size name).outcome t = .ok argument
  /-- Every other name is looked up outside. -/
  outside : ∀ name, .symbol name ∉ parameters → (lookup s.frames.size name).outcome t =
    outer.elim (.error (.unbound name)) fun place => (lookup place name).outcome s
  others : ∀ place < s.frames.size, ∀ name,
    (lookup place name).outcome t = (lookup place name).outcome s

theorem WellFormed.opened_bindParameters (hs : s.WellFormed) {parameters arguments : List Value}
    {outer : Option FrameId} (houter : ∀ place, outer = some place → place < s.frames.size)
    (hlength : parameters.length = arguments.length)
    (hsymbols : ∀ parameter ∈ parameters, SpecialForm.isSymbol parameter = true) (room : Nat) :
    ∃ t, bindParameters room parameters arguments outer s = .ok s.frames.size t ∧
      s.Opened t parameters arguments outer := by
  obtain ⟨bindings, hbindings, hrun⟩ := exists_bindParameters_eq_ok room s outer hlength hsymbols
  refine ⟨_, hrun, fun i name argument hparameter hlast hargument => ?_, fun name hname => ?_,
    fun place hplace name => ?_⟩
  · rw [outcome_lookup, hs.lookup?_allocate_size bindings houter,
      get?_bindingsOf_of_last hbindings hparameter hargument hlast]
    rfl
  · rw [outcome_lookup, hs.lookup?_allocate_size bindings houter,
      get?_bindingsOf_of_notMem hbindings hname]
    cases outer with
    | none => rfl
    | some place => exact (outcome_lookup s place name).symm
  · rw [outcome_lookup, outcome_lookup, hs.lookup?_allocate _ hplace]

/-- In a well-formed store frames are nested scopes.  A definition is seen from where its
frame is exposed.  An assignment needs a binding on the chain, and goes to the frame where
the name is found.  Parameters are bound in a new frame if they are as many as the arguments
and symbols; otherwise the store stays as it is, and the failure is about the first thing
that is wrong, or says that it nests too deeply to be shown. -/
theorem WellFormed.scopes_nest (hs : s.WellFormed) (room : Nat) :
    (∀ place < s.frames.size, ∀ name v,
      (∃ t, Computation.define room place (.symbol name) v s = .ok () t ∧
        s.Updates t name v (s.Exposes · name place)) ∧
      ((∀ frame, s.OnChain place frame → s.bound? frame name = none) →
        assign room place (.symbol name) v s = .error (.unbound name) s) ∧
      ∀ frame, s.OnChain place frame → (s.bound? frame name).isSome →
        ∃ target t, find place name s = .ok target s ∧ s.Exposes place name target ∧
          (s.bound? target name).isSome ∧ assign room place (.symbol name) v s = .ok () t ∧
          s.Updates t name v (fun other => (find other name).outcome s = .ok target) ∧
          ∀ other key, (find other key).outcome t = (find other key).outcome s) ∧
    ∀ (parameters arguments : List Value) (outer : Option FrameId),
      (∀ place, outer = some place → place < s.frames.size) →
      (parameters.length ≠ arguments.length →
        bindParameters room parameters arguments outer s =
          .error (refusal room (.list 0 parameters)
            (.parameterCount parameters.length arguments.length)) s) ∧
      (parameters.length = arguments.length →
        (∀ v, parameters.find? (!SpecialForm.isSymbol ·) = some v →
          bindParameters room parameters arguments outer s =
            .error (refusal room v .boundNotSymbol) s) ∧
        ((∀ parameter ∈ parameters, SpecialForm.isSymbol parameter = true) →
          ∃ t, bindParameters room parameters arguments outer s = .ok s.frames.size t ∧
            s.Opened t parameters arguments outer)) := by
  refine ⟨fun place hplace name v => ⟨?_, fun hunbound => ?_, fun frame hframe hbound => ?_⟩,
    fun parameters arguments outer houter => ⟨fun hlength => ?_, fun hlength =>
      ⟨fun v hfound => ?_, fun hsymbols => ?_⟩⟩⟩
  · exact ⟨_, rfl, hs.updates_define hplace name v⟩
  · exact hs.assign_eq_error hplace hunbound room v
  · exact hs.updates_assign hplace hframe hbound room v
  · exact bindParameters_of_length_ne room s outer hlength
  · exact bindParameters_of_find? room s outer hlength hfound
  · exact hs.opened_bindParameters houter hlength hsymbols room

/-- A name that one of two frames binds is defined there, assigned from the inner frame and
then a parameter twice. -/
theorem WellFormed.scopes_nest_inner :
    let one : Value := .boolean true
    let s := ((Store.empty.allocate ⟨[("x", one)], none⟩).2.allocate ⟨[], some 0⟩).2
    let x : Value := .symbol "x"
    s.WellFormed ∧ s.Exposes 1 "x" 0 ∧
      (∃ t, Computation.define 9 0 x one s = .ok () t ∧ (lookup 1 "x").outcome t = .ok one) ∧
      (∃ t, assign 9 1 x (.boolean false) s = .ok () t ∧
        (lookup 0 "x").outcome t = .ok (.boolean false)) ∧
      ∃ t, bindParameters 9 [x, x] [one, .list 0 []] (some 1) s = .ok 2 t ∧
        (lookup 2 "x").outcome t = .ok (.list 0 []) := by
  intro one s x
  have hglobal : ((Store.empty.allocate ⟨[("x", one)], none⟩).2).WellFormed :=
    wellFormed_empty.allocate nofun fun name v hbound => by
      rw [Bindings.get?_cons] at hbound
      split at hbound
      · exact Option.some.inj hbound ▸ .boolean true
      · cases hbound
  have hs : s.WellFormed := by
    refine hglobal.allocate (fun place h => ?_) nofun
    cases h
    exact Nat.zero_lt_one
  have hwalk : s.Walk 1 ([1] ++ 0 :: []) := .outwards rfl rfl (.last rfl rfl)
  have hexposed : s.Exposes 1 "x" 0 := by
    refine ⟨[1], [], hwalk, fun frame hframe => ?_⟩
    cases List.mem_singleton.mp hframe
    rfl
  obtain ⟨hframes, hcalls⟩ := hs.scopes_nest 9
  obtain ⟨⟨t, hdefine, hdefined⟩, -⟩ := hframes 0 Nat.zero_lt_two "x" one
  obtain ⟨target, u, hfind, -, -, hassign, hassigned, -⟩ :=
    (hframes 1 Nat.one_lt_two "x" (.boolean false)).2.2 0 ⟨[1], [], hwalk⟩ rfl
  have htarget : find 1 "x" s = .ok 0 s := rfl
  cases htarget.symm.trans hfind
  have houter (place : FrameId) (h : some 1 = some place) : place < s.frames.size :=
    Option.some.inj h ▸ Nat.one_lt_two
  obtain ⟨w, hbind, hopened⟩ :=
    ((hcalls [x, x] [one, .list 0 []] (some 1) houter).2 rfl).2 (by simp [x, SpecialForm.isSymbol])
  refine ⟨hs, hexposed, ⟨t, hdefine, (hdefined 1 Nat.one_lt_two).1 hexposed⟩,
    ⟨u, hassign, (hassigned 0 Nat.zero_lt_two).1 rfl⟩, w, hbind, ?_⟩
  refine hopened.parameter 1 "x" _ rfl (fun later hlater => ?_) rfl
  rw [List.getElem?_eq_none hlater]
  exact (Option.some_ne_none _).symm

end Store

/-! ## Parameters that cannot be shown -/

def Value.nested : Nat → Value
  | 0 => .list 0 []
  | n + 1 => .list 0 [nested n]

theorem Value.writingDepth_nested (n : Nat) : (nested n).datum.writingDepth = 2 * n + 1 := by
  induction n with
  | zero => rfl
  | succ n ih =>
      rw [nested, datum, datumAll, datumAll, Datum.writingDepth, Datum.writingDepthAll, ih]
      omega

/-- So a parameter list without its arguments does not always fail because of the count. -/
theorem Computation.not_wrongCount_iff_of_deep_parameters :
    ¬ ((∃ failure t, bindParameters Interpreter.defaultLimit [.nested 599] [] none Store.empty =
          .error failure t ∧ failure.kind = .wrongCount) ↔
        [Value.nested 599].length ≠ ([] : List Value).length) := by
  have hdeep (cause : Datum → Failure) :
      refusal Interpreter.defaultLimit (.list 0 [.nested 599]) cause = .depthExceeded := by
    refine if_neg ?_
    rw [← Value.nested, Value.writingDepth_nested]
    decide
  intro hiff
  obtain ⟨failure, t, hfailed, hkind⟩ := hiff.mpr (by decide)
  rw [bindParameters_of_length_ne _ _ _ (by decide), hdeep] at hfailed
  cases hfailed
  cases hkind

end Lisplet
