import Lisplet.Proofs.Evaluation.Locality

/-!
# Bindings that are not read

A name that stands in quoted parts of an expression only is not looked up by it.  A keyword
is not looked up even where it heads a list, so a binding of a keyword does not shadow the
special form.  In two stores that are the same up to the bindings of such a name an
evaluation gives the same, and leaves stores that are still the same up to them.
-/

namespace Lisplet

/-! ## Expressions that do not read a name -/

namespace Value

/-- A closure with a certain body stands in a value, in a list at any depth. -/
inductive Encloses : Value → Value → Prop where
  | item {identity : Identity} {items : List Value} {v body : Value} :
      v ∈ items → Encloses v body → Encloses (.list identity items) body
  | body {identity : Identity} {parameters : List Value} {body : Value} {scope : FrameId} :
      Encloses (.closure identity parameters body scope) body

/-- Expressions in which a name stands in the operands of a quotation only or, if it is a
keyword, as the head of a list.  So it is in the bodies of the closures that they hold. -/
inductive Unread (name : String) : Value → Prop where
  | number (x : Number) : Unread name (.number x)
  | boolean (b : Bool) : Unread name (.boolean b)
  | symbol {other : String} : other ≠ name → Unread name (.symbol other)
  | list {identity : Identity} {items : List Value} :
      (∀ v ∈ items, Unread name v) → Unread name (.list identity items)
  | form {identity : Identity} {head : Value} {operands : List Value} {form : SpecialForm} :
      SpecialForm.ofHead? head = some form → (∀ v ∈ operands, Unread name v) →
      Unread name (.list identity (head :: operands))
  | quotation {identity : Identity} {head : Value} {operands : List Value} :
      SpecialForm.ofHead? head = some .quotation →
      (∀ v ∈ operands, ∀ body, v.Encloses body → Unread name body) →
      Unread name (.list identity (head :: operands))
  | primitive (identity : Identity) (operation : Primitive) :
      Unread name (.primitive identity operation)
  | closure {identity : Identity} {parameters : List Value} {body : Value} {scope : FrameId} :
      Unread name body → Unread name (.closure identity parameters body scope)

/-- Values that hold only closures whose bodies do not read a name. -/
def Clear (name : String) (v : Value) : Prop := ∀ body, v.Encloses body → body.Unread name

variable {name other : String}

@[simp]
theorem clear_list_iff {identity : Identity} {items : List Value} :
    (Value.list identity items).Clear name ↔ ∀ v ∈ items, v.Clear name := by
  constructor
  · intro h v hv body hbody
    exact h body (.item hv hbody)
  · rintro h body (⟨hv, hbody⟩ | _)
    exact h _ hv body hbody

/-- A keyword holds no closure. -/
theorem clear_of_ofHead? {head : Value} {form : SpecialForm}
    (hhead : SpecialForm.ofHead? head = some form) : head.Clear name := by
  cases head with
  | symbol => nofun
  | _ => cases hhead

theorem Unread.clear {v : Value} (h : v.Unread name) : v.Clear name := by
  induction h with
  | number | boolean | symbol | primitive => nofun
  | list _ ih => exact clear_list_iff.mpr ih
  | form hhead _ ih =>
      exact clear_list_iff.mpr (List.forall_mem_cons.mpr ⟨clear_of_ofHead? hhead, ih⟩)
  | quotation hhead hoperands =>
      exact clear_list_iff.mpr (List.forall_mem_cons.mpr ⟨clear_of_ofHead? hhead, hoperands⟩)
  | closure hbody =>
      rintro _ ⟨⟩
      exact hbody

namespace Unread

variable {identity : Identity} {first : Value} {rest : List Value}

theorem head (h : Unread name (.list identity (first :: rest)))
    (hhead : SpecialForm.ofHead? first = none) : first.Unread name := by
  cases h with
  | list h => exact h first (List.mem_cons_self ..)
  | form hform => exact absurd (hhead.symm.trans hform) nofun
  | quotation hform => exact absurd (hhead.symm.trans hform) nofun

theorem operands (h : Unread name (.list identity (first :: rest)))
    (hhead : SpecialForm.ofHead? first ≠ some .quotation) : ∀ v ∈ rest, v.Unread name := by
  cases h with
  | list h => exact fun v hv => h v (List.mem_cons_of_mem _ hv)
  | form _ h => exact h
  | quotation hform => exact absurd hform hhead

/-- Quoted or not, the operands hold only closures that do not read the name. -/
theorem clear_operands (h : Unread name (.list identity (first :: rest))) :
    ∀ v ∈ rest, v.Clear name :=
  fun v hv => clear_list_iff.mp h.clear v (List.mem_cons_of_mem _ hv)

theorem ne (h : Unread name (.symbol other)) : other ≠ name := by
  cases h
  assumption

end Unread

end Value

/-! ## Stores without the bindings of a name -/

def Bindings.without (bindings : Bindings) (name : String) : Bindings :=
  bindings.filter (·.1 != name)

def Frame.without (frame : Frame) (name : String) : Frame :=
  { frame with bindings := frame.bindings.without name }

/-- The store in which no frame binds a name. -/
def Store.without (store : Store) (name : String) : Store :=
  { store with frames := store.frames.map (·.without name) }

namespace Bindings

@[simp]
theorem get?_without (bindings : Bindings) (name other : String) :
    (bindings.without name).get? other = if other = name then none else bindings.get? other := by
  induction bindings with
  | nil => simp [without, get?]
  | cons entry bindings ih =>
      obtain ⟨key, value⟩ := entry
      rw [without] at ih ⊢
      rw [List.filter_cons]
      by_cases hkey : key = name
      · subst hkey
        rw [if_neg (by simp), ih, get?_cons]
        by_cases hother : other = key
        · rw [if_pos hother, if_pos hother]
        · rw [if_neg hother, if_neg hother, if_neg hother]
      · rw [if_pos (by simpa using hkey), get?_cons, get?_cons, ih]
        by_cases hother : other = key
        · rw [if_pos hother, if_neg (hother ▸ hkey), if_pos hother]
        · rw [if_neg hother, if_neg hother]

theorem without_put (bindings : Bindings) {name other : String} (hother : other ≠ name)
    (value : Value) :
    (bindings.put other value).without name = (bindings.without name).put other value := by
  induction bindings with
  | nil => simp [without, put, hother]
  | cons entry bindings ih =>
      obtain ⟨key, old⟩ := entry
      rw [without] at ih ⊢
      rw [without, put, List.filter_cons]
      by_cases hkey : key = other
      · subst hkey
        rw [if_pos (beq_self_eq_true key), List.filter_cons, if_pos (by simpa using hother),
          if_pos (by simpa using hother), put, if_pos (beq_self_eq_true key)]
      · rw [if_neg (by simpa using hkey), List.filter_cons, ih, without]
        split
        · rw [put, if_neg (by simpa using hkey)]
        · rfl

@[simp]
theorem without_put_self (bindings : Bindings) (name : String) (value : Value) :
    (bindings.put name value).without name = bindings.without name := by
  induction bindings with
  | nil => simp [without, put]
  | cons entry bindings ih =>
      obtain ⟨key, old⟩ := entry
      rw [without] at ih ⊢
      rw [without, put, List.filter_cons]
      by_cases hkey : key = name
      · rw [if_pos (by simpa using hkey), List.filter_cons, if_neg (by simp),
          if_neg (by simpa using hkey)]
      · rw [if_neg (by simpa using hkey), List.filter_cons, ih, without]

end Bindings

namespace Store

variable {s t : Store} {name other : String}

@[simp]
theorem frames_without (s : Store) (name : String) (place : FrameId) :
    (s.without name).frames[place]? = (s.frames[place]?).map (·.without name) :=
  Array.getElem?_map ..

@[simp]
theorem size_without (s : Store) (name : String) :
    (s.without name).frames.size = s.frames.size :=
  Array.size_map ..

@[simp]
theorem bound?_without (s : Store) (name : String) (place : FrameId) (other : String) :
    (s.without name).bound? place other = if other = name then none else s.bound? place other := by
  rw [bound?, bound?, frames_without]
  cases s.frames[place]? with
  | none => simp
  | some frame => exact Bindings.get?_without frame.bindings name other

@[simp]
theorem chain_go_without (s : Store) (name : String) (steps : Nat) (place : FrameId) :
    chain.go (s.without name) steps place = chain.go s steps place := by
  have hsame (other : FrameId) (_ : True) :
      ((s.without name).frames[other]?).map Frame.outer = (s.frames[other]?).map Frame.outer := by
    rw [frames_without, Option.map_map]
    rfl
  exact chain_go_congr hsame (fun _ _ _ => trivial) steps trivial

/-- Other names are found where they were. -/
theorem find?_without (s : Store) (hother : other ≠ name) (place : FrameId) :
    (s.without name).find? place other = s.find? place other := by
  rw [find?, find?, chain, chain, chain_go_without]
  simp only [bound?_without, if_neg hother]

theorem lookup?_without (s : Store) (hother : other ≠ name) (place : FrameId) :
    (s.without name).lookup? place other = s.lookup? place other := by
  rw [lookup?, lookup?, find?_without s hother]
  simp only [bound?_without, if_neg hother]

theorem frames_without_define (s : Store) (name other : String) (place target : FrameId)
    (v : Value) : ((s.define place other v).without name).frames[target]? =
      if place = target then
        (s.frames[target]?).map fun frame =>
          { frame with bindings := (frame.bindings.put other v).without name }
      else (s.without name).frames[target]? := by
  rw [frames_without, frames_define]
  split
  · rw [Option.map_map]
    rfl
  · exact (frames_without s name target).symm

/-- Other names are bound in the same way. -/
theorem without_define (s : Store) (hother : other ≠ name) (place : FrameId) (v : Value) :
    (s.define place other v).without name = (s.without name).define place other v := by
  have hframes : ((s.define place other v).without name).frames =
      ((s.without name).define place other v).frames := by
    refine Array.ext_getElem? fun target => ?_
    rw [frames_without_define, frames_define, frames_without]
    simp only [Bindings.without_put _ hother, Option.map_map]
    rfl
  exact congrArg (Store.mk · s.nextIdentity) hframes

/-- To bind the name makes no difference. -/
@[simp]
theorem without_define_self (s : Store) (place : FrameId) (name : String) (v : Value) :
    (s.define place name v).without name = s.without name := by
  have hframes : ((s.define place name v).without name).frames = (s.without name).frames := by
    refine Array.ext_getElem? fun target => ?_
    rw [frames_without_define]
    simp only [Bindings.without_put_self]
    split
    · exact (frames_without s name target).symm
    · rfl
  exact congrArg (Store.mk · s.nextIdentity) hframes

theorem without_allocate (s : Store) (name : String) (bindings : Bindings)
    (outer : Option FrameId) :
    (s.allocate ⟨bindings, outer⟩).2.without name =
      ((s.without name).allocate ⟨bindings.without name, outer⟩).2 :=
  congrArg (Store.mk · s.nextIdentity) Array.map_push

/-! ## Two stores up to the bindings of a name -/

/-- Two stores that are the same up to the bindings of a name, and a closed region in which
every other binding holds only closures that do not read the name. -/
structure Screened (name : String) (region : FrameId → Prop) (s t : Store) : Prop where
  same : t.without name = s.without name
  closed : (s.without name).Closed region
  clear : ∀ {place other v}, region place → (s.without name).bound? place other = some v →
    v.Clear name

namespace Screened

variable {region : FrameId → Prop}

theorem nextIdentity (h : Screened name region s t) : t.nextIdentity = s.nextIdentity := by
  change (t.without name).nextIdentity = (s.without name).nextIdentity
  rw [h.same]

theorem size (h : Screened name region s t) : t.frames.size = s.frames.size := by
  rw [← size_without t name, ← size_without s name, h.same]

theorem find? (h : Screened name region s t) (hother : other ≠ name) (place : FrameId) :
    t.find? place other = s.find? place other := by
  rw [← find?_without t hother, ← find?_without s hother, h.same]

theorem lookup? (h : Screened name region s t) (hother : other ≠ name) (place : FrameId) :
    t.lookup? place other = s.lookup? place other := by
  rw [← lookup?_without t hother, ← lookup?_without s hother, h.same]

/-- What is looked up is confined to the region, and does not read the name. -/
theorem of_lookup? (h : Screened name region s t) (hother : other ≠ name) {place : FrameId}
    (hplace : region place) {v : Value} (hfound : s.lookup? place other = some v) :
    (∀ target, v.Captures target → region target) ∧ v.Clear name := by
  rw [← lookup?_without s hother] at hfound
  obtain ⟨target, htarget, hbound⟩ := exists_bound?_of_lookup? hfound
  exact ⟨h.closed.of_lookup? hplace hfound, h.clear (h.closed.of_find? hplace htarget) hbound⟩

theorem renumbered (h : Screened name region s t) (next : Identity) :
    Screened name region (Discipline.renumbered s next) (Discipline.renumbered t next) where
  same := by
    change Discipline.renumbered (t.without name) next = Discipline.renumbered (s.without name) next
    rw [h.same]
  closed := ⟨h.closed.outer, h.closed.bound⟩
  clear := h.clear

theorem define (h : Screened name region s t) (hother : other ≠ name) (place : FrameId) {v : Value}
    (hv : ∀ target, v.Captures target → region target) (hclear : v.Clear name) :
    Screened name region (s.define place other v) (t.define place other v) where
  same := by rw [without_define t hother, without_define s hother, h.same]
  closed := by
    rw [without_define s hother]
    exact h.closed.define place other hv
  clear {target key w} htarget hbound := by
    rw [without_define s hother, bound?_define] at hbound
    split at hbound
    · exact Option.some.inj hbound ▸ hclear
    · exact h.clear htarget hbound

theorem allocate (h : Screened name region s t) {bindings : Bindings} {outer : Option FrameId}
    (houter : ∀ place, outer = some place → region place)
    (hbindings : ∀ key v, bindings.get? key = some v →
      (∀ target, v.Captures target → region target) ∧ v.Clear name) :
    Screened name (fun place => region place ∨ place = s.frames.size)
      (s.allocate ⟨bindings, outer⟩).2 (t.allocate ⟨bindings, outer⟩).2 := by
  have hothers (key : String) (v : Value) (hv : (bindings.without name).get? key = some v) :
      (∀ target, v.Captures target → region target) ∧ v.Clear name := by
    rw [Bindings.get?_without] at hv
    split at hv
    · cases hv
    · exact hbindings key v hv
  constructor
  · rw [without_allocate, without_allocate, h.same]
  · rw [without_allocate, ← size_without s name]
    exact h.closed.allocate houter fun key v hv => (hothers key v hv).1
  · intro place key v hplace hbound
    rw [without_allocate, bound?_allocate, size_without] at hbound
    split at hbound
    · exact (hothers key v hbound).2
    · next hold => exact h.clear (hplace.resolve_right hold) hbound

end Screened

end Store

namespace Pairing

structure Screen (name : String) where
  first : Store
  second : Store
  region : FrameId → Prop
  screened : Store.Screened name region first second

/-- Two runs that do not read a name, in stores that are the same up to its bindings. -/
def unreading (name : String) : Pairing where
  Moment := Screen name
  first := Screen.first
  second := Screen.second
  grows m n := ∀ place, m.region place → n.region place
  names := .same
  identity _ _ := True
  value m v := (∀ place, v.Captures place → m.region place) ∧ v.Clear name
  frame m := m.region
  code m v := (∀ place, v.Captures place → m.region place) ∧ v.Unread name
  failure _ := True
  roomier := False

theorem lawful_unreading (name : String) : (unreading name).Lawful where
  grows_refl _ _ := id
  grows_trans h hlater place hplace := hlater place (h place hplace)
  identity_mono _ _ := trivial
  value_mono hgrows hv := ⟨fun place hplace => hgrows place (hv.1 place hplace), hv.2⟩
  frame_mono hgrows hplace := hgrows _ hplace
  code_mono hgrows hv := ⟨fun place hplace => hgrows place (hv.1 place hplace), hv.2⟩
  identity_zero _ := trivial
  number {_ x} _ := ⟨fun _ hcaptures => (by cases hcaptures), (Value.Unread.number x).clear⟩
  boolean _ b := ⟨fun _ hcaptures => (by cases hcaptures), (Value.Unread.boolean b).clear⟩
  list_iff := by
    intro m identity items
    change (∀ place, _ → m.region place) ∧ _ ↔
      True ∧ ∀ v ∈ items, (∀ place, _ → m.region place) ∧ _
    rw [true_and, Value.captures_list_iff, Value.clear_list_iff]
    exact forall₂_and.symm
  nextIdentity m := m.screened.nextIdentity
  fresh m := by
    have hscreened := m.screened.renumbered (m.first.nextIdentity + 1)
    exact ⟨⟨_, _, m.region, hscreened⟩, fun _ => id, rfl,
      congrArg (Discipline.renumbered m.second <| · + 1) m.screened.nextIdentity.symm, trivial⟩
  lookup {m place _} hplace hcode := by
    refine ⟨?_, fun _ hfound => m.screened.of_lookup? hcode.2.ne hplace hfound⟩
    simpa [unreading] using m.screened.lookup? hcode.2.ne place
  define {m place _ v} _ hcode hv := by
    refine ⟨⟨_, _, m.region, m.screened.define hcode.2.ne place hv.1 hv.2⟩, fun _ => id, rfl, ?_⟩
    exact congrArg (m.second.define place _) v.rename_same.symm
  assign {m _ head other expression place v} _ hcode hhead hv := by
    have hother : other ≠ name :=
      (hcode.2.operands (by rw [hhead]; decide) _ (List.mem_cons_self ..)).ne
    change Option.Rel _ (m.first.assign? place other v)
      (m.second.assign? place other (v.rename .same))
    rw [Value.rename_same, Store.assign?, Store.assign?, m.screened.find? hother]
    cases m.first.find? place other with
    | none => exact .none
    | some target =>
        exact .some ⟨⟨_, _, m.region, m.screened.define hother target hv.1 hv.2⟩, fun _ => id,
          rfl, rfl⟩
  size m := m.screened.size
  -- A parameter may have the name; the new frames bind it to the same then.
  call {m _ _ _ scope arguments bindings} hclosure harguments hbindings := by
    have hscope (place : FrameId) (h : some scope = some place) : m.region place :=
      Option.some.inj h ▸ hclosure.1 scope .scope
    have hscreened := m.screened.allocate hscope fun _ v hv =>
      harguments v (Computation.mem_arguments_of_bindingsOf hbindings hv)
    refine ⟨⟨_, _, _, hscreened⟩, fun _ => .inl, rfl, ?_, .inr rfl,
      fun place hplace => .inl (hclosure.1 place (.body hplace)), hclosure.2 _ .body⟩
    exact congrArg (Discipline.extended m.second · _) bindings.rename_same.symm
  literal hcode _ _ := ⟨hcode.1, hcode.2.clear⟩
  operator hcode hhead :=
    ⟨Value.captures_list_iff.mp hcode.1 _ (List.mem_cons_self ..), hcode.2.head hhead⟩
  operands hcode hhead v hv :=
    ⟨Value.captures_list_iff.mp hcode.1 v (List.mem_cons_of_mem _ hv),
      hcode.2.operands hhead v hv⟩
  quoted hcode _ :=
    ⟨Value.captures_list_iff.mp hcode.1 _ (by simp), hcode.2.clear_operands _ (by simp)⟩
  closure hcode hhead _ hplace _ := by
    refine ⟨Value.captures_closure_of_code hcode.1 hplace, ?_⟩
    rintro _ ⟨⟩
    exact hcode.2.operands (by rw [hhead]; decide) _ (by simp)
  count _ _ := .inr trivial
  ordinary _ := trivial
  parameter _ _ _ := trivial

end Pairing

/-- The bindings of a name that is not read, by the expression and by the closures that can
be reached from it without these bindings, make no difference: in two stores that are the
same up to them an evaluation gives the same, and leaves stores that are the same up to
them.  A keyword is not read where it is the head of a list. -/
theorem evaluate_of_unread {name : String} {s t : Store} (hsame : s.without name = t.without name)
    {v : Value} (hv : v.Unread name) (place : FrameId)
    (hclear : ∀ target, (s.without name).ReachesFrom place v target → ∀ other w,
      (s.without name).bound? target other = some w → w.Clear name) (room : Nat) :
    (evaluate room v place).outcome s = (evaluate room v place).outcome t ∧
      ((evaluate room v place).after s).without name =
        ((evaluate room v place).after t).without name := by
  have hscreened : Store.Screened name ((s.without name).ReachesFrom place v) s t :=
    ⟨hsame.symm, Store.closed_reaches .., fun hplace hbound => hclear _ hplace _ _ hbound⟩
  have hagree : (Pairing.unreading name).Agree (Pairing.unreading name).value id
      (evaluate room v place) (evaluate room v place) ⟨s, t, _, hscreened⟩ :=
    Pairing.agree_evaluate_same (Pairing.lawful_unreading name) rfl (.inl rfl)
      (.root (.inl rfl)) ⟨fun _ hcaptures => .root (.inr hcaptures), hv⟩
  obtain ⟨houtcome, n, -, hfirst, hsecond, -⟩ := hagree.outcome_after id
  exact ⟨(houtcome.trans (Renaming.outcome_same _)).symm, hfirst ▸ hsecond ▸ n.screened.same.symm⟩

/-- A keyword is bound in one of two stores, and a closure is called that uses it and quotes
it. -/
theorem evaluate_of_unread_keyword :
    let body : Value := .list 0
      [.symbol "if", .symbol "x", .list 0 [.symbol "quote", .symbol "if"], .boolean false]
    let s : Store := ⟨#[⟨[("f", .closure 1 [.symbol "x"] body 0)], none⟩], 2⟩
    let t : Store := s.define 0 "if" (.boolean true)
    let call : Value := .list 0 [.symbol "f", .boolean true]
    s.without "if" = t.without "if" ∧ call.Unread "if" ∧
      (∀ target, (s.without "if").ReachesFrom 0 call target → ∀ other w,
        (s.without "if").bound? target other = some w → w.Clear "if") ∧
      (evaluate 9 call 0).outcome s = (evaluate 9 call 0).outcome t ∧
      ((evaluate 9 call 0).after s).without "if" = ((evaluate 9 call 0).after t).without "if" ∧
      ((evaluate 9 call 0).outcome t).toOption.map Value.text = some "if" := by
  intro body s t call
  have hsame : s.without "if" = t.without "if" := (s.without_define_self 0 "if" _).symm
  have hcall : call.Unread "if" := by
    refine .list (List.forall_mem_cons.mpr ⟨.symbol (by decide), ?_⟩)
    exact List.forall_mem_cons.mpr ⟨.boolean true, by simp⟩
  have hbody : body.Unread "if" := by
    refine .form rfl ?_
    simp only [List.forall_mem_cons, List.not_mem_nil, false_implies, implies_true, and_true]
    exact ⟨.symbol (by decide), .quotation rfl (by simp; nofun), .boolean false⟩
  have hclear (target : FrameId) (_ : (s.without "if").ReachesFrom 0 call target) (other : String)
      (w : Value) (hbound : (s.without "if").bound? target other = some w) : w.Clear "if" := by
    rw [Store.bound?_without] at hbound
    split at hbound
    · cases hbound
    · obtain ⟨frame, hframe, hget⟩ := Option.bind_eq_some_iff.mp hbound
      have hmem : frame ∈ s.frames := Array.mem_of_getElem? hframe
      cases List.mem_singleton.mp (Array.mem_toList_iff.mpr hmem)
      rw [Bindings.get?_cons] at hget
      split at hget
      · cases hget
        rintro _ ⟨⟩
        exact hbody
      · cases hget
  obtain ⟨houtcome, hafter⟩ := evaluate_of_unread hsame hcall 0 hclear 9
  exact ⟨hsame, hcall, hclear, houtcome, hafter, by decide +kernel⟩

end Lisplet
