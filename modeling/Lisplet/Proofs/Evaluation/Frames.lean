import Lisplet.Proofs.Evaluation.Sequencing
import Lisplet.Proofs.Evaluation.Session

/-!
# The frames of a store

Frames are only ever added.  A frame points to an older one, a closure to one that is
there, and what an evaluation may do to a frame that it finds is to change what a name is
bound to or to bind a new name behind the others.  All this holds however an evaluation
ends.
-/

namespace Lisplet

/-! ## Stores that are well-formed -/

namespace Value

/-- Every closure in a value, wherever it stands, keeps one of the first `count` frames. -/
inductive Scoped (count : Nat) : Value → Prop where
  | number (x : Number) : Scoped count (.number x)
  | boolean (b : Bool) : Scoped count (.boolean b)
  | symbol (name : String) : Scoped count (.symbol name)
  | list {identity : Identity} {items : List Value} :
      (∀ v ∈ items, Scoped count v) → Scoped count (.list identity items)
  | primitive (identity : Identity) (operation : Primitive) :
      Scoped count (.primitive identity operation)
  | closure {identity : Identity} {parameters : List Value} {body : Value} {scope : FrameId} :
      (∀ v ∈ parameters, Scoped count v) → Scoped count body → scope < count →
      Scoped count (.closure identity parameters body scope)

theorem Scoped.mono {count more : Nat} (hle : count ≤ more) {v : Value} (h : v.Scoped count) :
    v.Scoped more := by
  induction h with
  | number x => exact .number x
  | boolean b => exact .boolean b
  | symbol name => exact .symbol name
  | list _ ih => exact .list ih
  | primitive identity operation => exact .primitive identity operation
  | closure _ _ hscope hparameters hbody =>
      exact .closure hparameters hbody (Nat.lt_of_lt_of_le hscope hle)

/-- Data hold no closures. -/
theorem holdsOfData_scoped (count : Nat) : Datum.HoldsOfData (Scoped count) where
  number := .number
  boolean := .boolean
  symbol := .symbol
  list _ _ := .list

@[simp]
theorem scoped_list_iff {count : Nat} {identity : Identity} {items : List Value} :
    (Value.list identity items).Scoped count ↔ ∀ v ∈ items, v.Scoped count :=
  ⟨fun h => by cases h; assumption, .list⟩

end Value

namespace Store

/-- An outer frame is older than its inner one, and every closure that is bound keeps a
frame of the store. -/
structure WellFormed (s : Store) : Prop where
  outer_lt : ∀ {place outer : FrameId} {frame : Frame}, s.frames[place]? = some frame →
    frame.outer = some outer → outer < place
  scopes : ∀ {place name v}, s.bound? place name = some v → v.Scoped s.frames.size

/-- Every frame of a store is still there, with the same outer frame; its names are too,
in the same order, and new names come behind them. -/
def Extends (s t : Store) : Prop :=
  ∀ (place : FrameId) (frame : Frame), s.frames[place]? = some frame →
    ∃ later : Frame, t.frames[place]? = some later ∧ later.outer = frame.outer ∧
      frame.bindings.names <+: later.bindings.names

theorem Extends.refl (s : Store) : s.Extends s :=
  fun _ frame hframe => ⟨frame, hframe, rfl, List.prefix_rfl⟩

theorem Extends.trans {s t u : Store} (h : s.Extends t) (hlater : t.Extends u) : s.Extends u := by
  intro place frame hframe
  obtain ⟨middle, hmiddle, houter, hnames⟩ := h place frame hframe
  obtain ⟨last, hlast, houter', hnames'⟩ := hlater place middle hmiddle
  exact ⟨last, hlast, houter'.trans houter, hnames.trans hnames'⟩

theorem Extends.size_le {s t : Store} (h : s.Extends t) : s.frames.size ≤ t.frames.size := by
  refine Nat.le_of_not_lt fun hlt => ?_
  obtain ⟨later, hlater, -⟩ := h _ _ (Array.getElem?_eq_getElem hlt)
  rw [Array.getElem?_eq_none (Nat.le_refl _)] at hlater
  cases hlater

theorem extends_define (s : Store) (place : FrameId) (name : String) (v : Value) :
    s.Extends (s.define place name v) := by
  intro other frame hframe
  rw [frames_define]
  split
  · rw [hframe]
    exact ⟨_, rfl, rfl, frame.bindings.names_prefix_put name v⟩
  · exact ⟨frame, hframe, rfl, List.prefix_rfl⟩

theorem extends_allocate (s : Store) (frame : Frame) : s.Extends (s.allocate frame).2 := by
  intro place old hold
  rw [frames_allocate_of_lt _ _ (Array.getElem?_eq_some_iff.mp hold).1]
  exact ⟨old, hold, rfl, List.prefix_rfl⟩

/-- There is a new frame, behind those that were there. -/
theorem size_lt_size_allocate (s : Store) (frame : Frame) :
    s.frames.size < (s.allocate frame).2.frames.size := by
  rw [size_allocate]
  exact Nat.lt_succ_self _

theorem WellFormed.define {s : Store} (hs : s.WellFormed) (place : FrameId) (name : String)
    {v : Value} (hv : v.Scoped s.frames.size) : (s.define place name v).WellFormed where
  outer_lt := by
    intro other outer frame hframe houter
    rw [frames_define] at hframe
    split at hframe
    · obtain ⟨old, hold, rfl⟩ := Option.map_eq_some_iff.mp hframe
      exact hs.outer_lt hold houter
    · exact hs.outer_lt hframe houter
  scopes := by
    intro other key w hbound
    rw [bound?_define] at hbound
    rw [size_define]
    split at hbound
    · exact Option.some.inj hbound ▸ hv
    · exact hs.scopes hbound

theorem WellFormed.allocate {s : Store} (hs : s.WellFormed) {bindings : Bindings}
    {outer : Option FrameId} (houter : ∀ place, outer = some place → place < s.frames.size)
    (hbindings : ∀ name v, bindings.get? name = some v → v.Scoped s.frames.size) :
    (s.allocate ⟨bindings, outer⟩).2.WellFormed where
  outer_lt := by
    intro place target frame hframe htarget
    rw [frames_allocate] at hframe
    split at hframe
    · next hplace =>
        cases hframe
        exact hplace ▸ houter target htarget
    · exact hs.outer_lt hframe htarget
  scopes := by
    intro place name v hbound
    have hle : s.frames.size ≤ (s.allocate ⟨bindings, outer⟩).2.frames.size :=
      (extends_allocate s _).size_le
    rw [bound?_allocate] at hbound
    split at hbound
    · exact (hbindings name v hbound).mono hle
    · exact (hs.scopes hbound).mono hle

theorem wellFormed_empty : Store.empty.WellFormed where
  outer_lt hframe := by simp [Store.empty] at hframe
  scopes hbound := by simp [Store.empty, Store.bound?] at hbound

/-! ## Chains -/

/-- The places from a frame outwards, up to one that has no outer frame. -/
inductive Walk (s : Store) : FrameId → List FrameId → Prop where
  | last {place : FrameId} {frame : Frame} : s.frames[place]? = some frame →
      frame.outer = none → Walk s place [place]
  | outwards {place outer : FrameId} {frame : Frame} {places : List FrameId} :
      s.frames[place]? = some frame → frame.outer = some outer → Walk s outer places →
      Walk s place (place :: places)

/-- A chain has room for all steps of the walk, as every step leads to an older frame. -/
theorem WellFormed.walk_go {s : Store} (hs : s.WellFormed) {steps : Nat} {place : FrameId}
    (hsteps : place < steps) (hplace : place < s.frames.size) :
    s.Walk place (chain.go s steps place) := by
  induction steps generalizing place with
  | zero => exact absurd hsteps (Nat.not_lt_zero _)
  | succ steps ih =>
      have hframe := Array.getElem?_eq_getElem hplace
      rw [chain.go, hframe]
      dsimp only
      split
      · next houter => exact .last hframe houter
      · next outer houter =>
          have hlt := hs.outer_lt hframe houter
          exact .outwards hframe houter
            (ih (Nat.lt_of_lt_of_le hlt (Nat.le_of_lt_succ hsteps)) (Nat.lt_trans hlt hplace))

theorem WellFormed.walk_chain {s : Store} (hs : s.WellFormed) {place : FrameId}
    (hplace : place < s.frames.size) : s.Walk place (s.chain place) :=
  hs.walk_go (Nat.lt_succ_self place) hplace

theorem WellFormed.le_of_mem_walk {s : Store} (hs : s.WellFormed) {place : FrameId}
    {places : List FrameId} (hwalk : s.Walk place places) : ∀ other ∈ places, other ≤ place := by
  induction hwalk with
  | last => simp
  | outwards hframe houter _ ih =>
      have hlt := hs.outer_lt hframe houter
      refine List.forall_mem_cons.mpr ⟨Nat.le_refl _, fun other hother => ?_⟩
      exact Nat.le_of_lt (Nat.lt_of_le_of_lt (ih other hother) hlt)

/-- No walk comes to a frame twice. -/
theorem WellFormed.pairwise_walk {s : Store} (hs : s.WellFormed) {place : FrameId}
    {places : List FrameId} (hwalk : s.Walk place places) : places.Pairwise (· > ·) := by
  induction hwalk with
  | last => exact List.pairwise_singleton ..
  | outwards hframe houter hrest ih =>
      have hlt := hs.outer_lt hframe houter
      refine List.pairwise_cons.mpr ⟨fun other hother => ?_, ih⟩
      exact Nat.lt_of_le_of_lt (hs.le_of_mem_walk hrest other hother) hlt

end Store

/-! ## Evaluation -/

namespace Discipline

def formed : Discipline where
  store := Store.WellFormed
  grows := Store.Extends
  value s v := v.Scoped s.frames.size
  frame s place := place < s.frames.size
  code s v := v.Scoped s.frames.size
  failure _ := True

theorem lawful_formed : formed.Lawful where
  grows_refl := Store.Extends.refl
  grows_trans := Store.Extends.trans
  value_mono hgrows hv := hv.mono hgrows.size_le
  frame_mono hgrows hplace := Nat.lt_of_lt_of_le hplace hgrows.size_le
  code_mono hgrows hv := hv.mono hgrows.size_le
  number _ x := .number x
  boolean _ b := .boolean b
  list_iff := Value.scoped_list_iff
  renumber {s _} _ hs := ⟨⟨hs.outer_lt, hs.scopes⟩, Store.Extends.refl s⟩
  lookup hs _ hfound := by
    obtain ⟨target, -, hbound⟩ := Store.exists_bound?_of_lookup? hfound
    exact hs.scopes hbound
  define hs _ hv := ⟨hs.define _ _ hv, Store.extends_define _ _ _ _⟩
  assign hs _ _ _ hv hassigned := by
    obtain ⟨target, -, rfl⟩ := Store.exists_define_of_assign? hassigned
    exact ⟨hs.define _ _ hv, Store.extends_define _ _ _ _⟩
  call {s _ _ _ scope _ bindings} hs hclosure harguments hbindings := by
    cases hclosure with
    | closure _ hbody hscope =>
        have hextends := s.extends_allocate ⟨bindings, some scope⟩
        refine ⟨hs.allocate (fun _ h => Option.some.inj h ▸ hscope) fun name v hv => ?_,
          hextends, s.size_lt_size_allocate _, hbody.mono hextends.size_le⟩
        exact harguments v (Computation.mem_arguments_of_bindingsOf hbindings hv)
  literal hcode _ _ := hcode
  operator hcode _ := Value.scoped_list_iff.mp hcode _ (List.mem_cons_self ..)
  operands hcode _ v hv := Value.scoped_list_iff.mp hcode v (List.mem_cons_of_mem _ hv)
  quoted hcode _ := Value.scoped_list_iff.mp hcode _ (by simp)
  closure {_ _ _ _ inner parameters _ _} hcode _ _ hplace := by
    have hitems := Value.scoped_list_iff.mp hcode
    have hparameters := hitems (.list inner parameters) (by simp)
    exact .closure (Value.scoped_list_iff.mp hparameters) (hitems _ (by simp)) hplace
  count _ _ := .inr trivial
  ordinary _ := trivial
  parameter _ _ _ := trivial

theorem founded_formed : formed.Founded where
  global {s} hs :=
    ⟨hs.allocate (by simp) (by simp [Bindings.get?]), s.extends_allocate _,
      s.size_lt_size_allocate _⟩
  primitive _ identity operation := .primitive identity operation

end Discipline

/-! ## The stores that arise -/

namespace Store

/-- The stores that any number of global frames and of evaluations lead to, in any order
and however the evaluations end.  An expression may hold closures, but only over frames
that are there. -/
inductive Arises : Store → Prop where
  | empty : Arises Store.empty
  | globals {s : Store} (room : Nat) : Arises s →
      Arises ((Computation.newGlobalFrame room).after s)
  | load {s : Store} (d : Datum) : Arises s → Arises ((Computation.load d).after s)
  | evaluation {s : Store} {v : Value} {place : FrameId} (room : Nat) : Arises s →
      v.Scoped s.frames.size → place < s.frames.size →
      Arises ((evaluate room v place).after s)

theorem keeps_evaluate_formed {s : Store} (hs : s.WellFormed) (room : Nat) {v : Value}
    {place : FrameId} (hv : v.Scoped s.frames.size) (hplace : place < s.frames.size) :
    Discipline.formed.Keeps Discipline.formed.value (evaluate room v place) s :=
  Discipline.keeps_evaluate Discipline.lawful_formed hs hplace hv

theorem Arises.wellFormed {s : Store} (h : s.Arises) : s.WellFormed := by
  induction h with
  | empty => exact wellFormed_empty
  | globals room _ ih =>
      exact (Discipline.newGlobalFrame Discipline.lawful_formed Discipline.founded_formed room ih).1
  | load d _ ih => exact (Discipline.lawful_formed.renumber (d.le_load _) ih).1
  | evaluation room _ hv hplace ih => exact (keeps_evaluate_formed ih room hv hplace).after.1

end Store

namespace Interpreter

variable {α : Type} {interpreter : Interpreter}

@[simp]
theorem store_perform (computation : Computation α) :
    (interpreter.perform computation).2.store = computation.after interpreter.store := by
  rw [perform, Computation.after]
  cases computation interpreter.store <;> rfl

theorem arises_create (limit : Nat) :
    (create limit).store.Arises ∧ (create limit).globals < (create limit).store.frames.size := by
  refine ⟨?_, (keeps_create Discipline.lawful_formed Discipline.founded_formed
    Store.wellFormed_empty limit).globals⟩
  have hstore : (create limit).store =
      (Computation.newGlobalFrame limit).after Store.empty := by
    rw [create, Computation.after]
    cases Computation.newGlobalFrame limit Store.empty <;> rfl
  rw [hstore]
  exact .globals limit .empty

/-- Every store that an interpreter comes to arises, however its runs over source texts
end. -/
theorem arises_evaluateSource (hs : interpreter.store.Arises)
    (hglobals : interpreter.globals < interpreter.store.frames.size)
    (use : Value → Except Failure α) (breaksOff : Datum → Bool) (source : Option String) :
    (interpreter.evaluateSource use breaksOff source).2.store.Arises ∧
      interpreter.store.Extends (interpreter.evaluateSource use breaksOff source).2.store := by
  have hstep (before : Interpreter) (form : Datum)
      (h : before.store.Arises ∧ interpreter.store.Extends before.store ∧
        before.globals = interpreter.globals) :
      (before.evaluateForm form).2.store.Arises ∧
        interpreter.store.Extends (before.evaluateForm form).2.store ∧
        (before.evaluateForm form).2.globals = interpreter.globals := by
    obtain ⟨harises, hextends, hsame⟩ := h
    have hplace : before.globals < before.store.frames.size :=
      hsame ▸ Nat.lt_of_lt_of_le hglobals hextends.size_le
    have hscoped := (Value.holdsOfData_scoped before.store.frames.size).load form
      before.store.nextIdentity
    have hloaded := Store.Arises.load form harises
    have hkeeps := Store.keeps_evaluate_formed hloaded.wellFormed before.limit hscoped hplace
    rw [evaluateForm_eq, store_perform, globals_perform]
    exact ⟨.evaluation _ hloaded hscoped hplace, hextends.trans hkeeps.after.2, hsame⟩
  obtain ⟨harises, hextends, -⟩ := evaluateForms_induction hstep
    (readSource interpreter.limit source).forms (readSource interpreter.limit source).failure
    ⟨hs, Store.Extends.refl _, rfl⟩
  exact ⟨harises, hextends⟩

theorem arises_run (hs : interpreter.store.Arises)
    (hglobals : interpreter.globals < interpreter.store.frames.size)
    (breaksOff : Datum → Bool) (source : Option String) :
    (interpreter.run breaksOff source).2.store.Arises :=
  (arises_evaluateSource hs hglobals _ breaksOff source).1

end Interpreter

namespace Store

/-- In a store that arises, the outer frame of a frame is older and every closure that is
bound keeps a frame that is there; so the chain of a frame is the whole way to a frame
without an outer one, and never comes to a frame twice.  Whatever is evaluated then, the
frames stay, with their outer frames and their names in order, and every closure in the
value keeps a frame that is there. -/
theorem Arises.wellFormed_extends {s : Store} (h : s.Arises) :
    s.WellFormed ∧
      (∀ place < s.frames.size,
        s.Walk place (s.chain place) ∧ (s.chain place).Pairwise (· > ·)) ∧
      ∀ room v place, v.Scoped s.frames.size → place < s.frames.size →
        s.Extends ((evaluate room v place).after s) ∧
          ∀ answer t, evaluate room v place s = .ok answer t → answer.Scoped t.frames.size := by
  have hs := h.wellFormed
  refine ⟨hs, fun place hplace => ?_, fun room v place hv hplace => ?_⟩
  · have hwalk := hs.walk_chain hplace
    exact ⟨hwalk, hs.pairwise_walk hwalk⟩
  · have hkeeps := keeps_evaluate_formed hs room hv hplace
    exact ⟨hkeeps.after.2, fun answer t hrun => (hkeeps.ok hrun).2.2⟩

/-- A counter, whose frame is inside the global one, is called from there. -/
theorem Arises.wellFormed_extends_counter :
    let source := "(define f ((lambda (n) (lambda () (set! n (+ n 1)))) 5))"
    let s := ((Interpreter.create 100).run Interpreter.uninterrupted (some source)).2.store
    let call := evaluate 100 (.list 0 [.symbol "f"]) 1
    s.Arises ∧ s.Walk 1 [1, 0] ∧ s.Extends (call.after s) ∧ (call.after s).frames.size = 3 := by
  have hstore (s : Store) (harises : s.Arises) (hsize : 1 < s.frames.size)
      (hchain : s.chain 1 = [1, 0]) :
      s.Walk 1 [1, 0] ∧ s.Extends ((evaluate 100 (.list 0 [.symbol "f"]) 1).after s) := by
    obtain ⟨-, hwalks, hevaluations⟩ := wellFormed_extends harises
    refine ⟨hchain ▸ (hwalks 1 hsize).1, (hevaluations 100 _ 1 ?_ hsize).1⟩
    exact .list (by simpa using .symbol "f")
  have hrun : 1 < ((Interpreter.create 100).run Interpreter.uninterrupted (some
        "(define f ((lambda (n) (lambda () (set! n (+ n 1)))) 5))")).2.store.frames.size ∧
      ((Interpreter.create 100).run Interpreter.uninterrupted (some
        "(define f ((lambda (n) (lambda () (set! n (+ n 1)))) 5))")).2.store.chain 1 = [1, 0] ∧
      ((evaluate 100 (.list 0 [.symbol "f"]) 1).after
        ((Interpreter.create 100).run Interpreter.uninterrupted (some
          "(define f ((lambda (n) (lambda () (set! n (+ n 1)))) 5))")).2.store).frames.size =
        3 := by
    decide +kernel
  obtain ⟨hcreated, hglobals⟩ := Interpreter.arises_create 100
  have harises := Interpreter.arises_run hcreated hglobals Interpreter.uninterrupted (some
    "(define f ((lambda (n) (lambda () (set! n (+ n 1)))) 5))")
  obtain ⟨hwalk, hextends⟩ := hstore _ harises hrun.1 hrun.2.1
  exact ⟨harises, hwalk, hextends, hrun.2.2⟩

end Store

end Lisplet
