import Lisplet.Proofs.Evaluation.Definitions
import Lisplet.Proofs.Evaluation.Locality

/-!
# Interpreters that share a store

Any number of interpreters may live in one store, each with a global frame of its own.
They take turns in any order, and a turn evaluates one form.  As long as no frame can be
reached from two of the global frames, which turns preserve, an interpreter gets the
answers that it would get if the turns of the others did nothing but use up places and
identities.  That these are used up does not show, which is the subject of
`Lisplet.Proofs.Evaluation.Independence`.
-/

namespace Lisplet

/-- What an interpreter does at one time: it loads a form and evaluates it. -/
structure Turn where
  room : Nat
  globals : FrameId
  form : Datum

namespace Turn

def run (turn : Turn) : Computation Value := do
  evaluate turn.room (← Computation.load turn.form) turn.globals

def expression (turn : Turn) (s : Store) : Value := (turn.form.load s.nextIdentity).1

def loaded (turn : Turn) (s : Store) : Store :=
  Discipline.renumbered s (turn.form.load s.nextIdentity).2

theorem run_apply (turn : Turn) (s : Store) :
    turn.run s = evaluate turn.room (turn.expression s) turn.globals (turn.loaded s) := by
  have hload : Computation.load turn.form s = .ok (turn.expression s) (turn.loaded s) := rfl
  rw [run, Computation.bind_of_ok hload]

theorem after_run (turn : Turn) (s : Store) :
    turn.run.after s =
      (evaluate turn.room (turn.expression s) turn.globals).after (turn.loaded s) := by
  rw [Computation.after, Computation.after, run_apply]

theorem outcome_run (turn : Turn) (s : Store) :
    turn.run.outcome s =
      (evaluate turn.room (turn.expression s) turn.globals).outcome (turn.loaded s) := by
  rw [Computation.outcome, Computation.outcome, run_apply]

theorem not_captures_expression (turn : Turn) (s : Store) (place : FrameId) :
    ¬ (turn.expression s).Captures place :=
  Value.holdsOfData_not_captures.load turn.form s.nextIdentity place

end Turn

namespace Store

variable {s t u : Store} {place : FrameId}

/-- Where the frames that can be reached are the same, the same can be reached. -/
theorem reaches_of_unchanged {roots : FrameId → Prop}
    (hsame : ∀ other, s.Reaches roots other → t.frames[other]? = s.frames[other]?)
    (hplace : t.Reaches roots place) : s.Reaches roots place := by
  induction hplace with
  | root h => exact .root h
  | outer _ hframe houter ih => exact .outer ih (hsame _ ih ▸ hframe) houter
  | @bound other target name v _ hbound hcaptures ih =>
      have hbefore : s.bound? other name = some v := by
        rwa [Store.bound?, ← hsame other ih]
      exact .bound ih hbefore hcaptures

def Owns (s : Store) (globals : FrameId) : FrameId → Prop := s.Reaches (· = globals)

/-! ## One turn -/

section Turn

variable (turn : Turn)

/-- A form holds no closures, so that all it can reach is what its interpreter owns. -/
theorem owns_of_reachesFrom
    (h : (turn.loaded s).ReachesFrom turn.globals (turn.expression s) place) :
    s.Owns turn.globals place := by
  have hclosed : (turn.loaded s).Closed (s.Owns turn.globals) := ⟨.outer, .bound⟩
  refine hclosed.of_reaches ?_ h
  rintro root (hroot | hcaptures)
  · exact .root hroot
  · exact absurd hcaptures (turn.not_captures_expression s root)

/-- A turn leaves every frame that its interpreter does not own as it was. -/
theorem frames_after_turn (hplace : place < s.frames.size) (hother : ¬ s.Owns turn.globals place) :
    (turn.run.after s).frames[place]? = s.frames[place]? := by
  rw [turn.after_run]
  exact frames_after_evaluate _ _ _ _ hplace fun h => hother (owns_of_reachesFrom turn h)

/-- What an interpreter owns after its turn it owned before, or it is new. -/
theorem owns_after_turn (hplace : (turn.run.after s).Owns turn.globals place) :
    s.Owns turn.globals place ∨ s.frames.size ≤ place := by
  rw [turn.after_run] at hplace
  exact (reaches_after_evaluate _ _ _ _ hplace).imp (owns_of_reachesFrom turn) And.left

theorem le_after_turn :
    s.frames.size ≤ (turn.run.after s).frames.size ∧
      s.nextIdentity ≤ (turn.run.after s).nextIdentity := by
  have hgrows := ((turn.loaded s).keeps_evaluate_confined turn.room (turn.expression s)
    turn.globals).after.2
  rw [turn.after_run]
  exact ⟨hgrows.1, Nat.le_trans (turn.form.le_load _) hgrows.2⟩

theorem WellFormed.after_turn (hs : s.WellFormed) (hglobals : turn.globals < s.frames.size) :
    (turn.run.after s).WellFormed := by
  have hloaded : (turn.loaded s).WellFormed := ⟨hs.outer_lt, hs.scopes⟩
  have hscoped := (Value.holdsOfData_scoped s.frames.size).load turn.form s.nextIdentity
  rw [turn.after_run]
  exact (keeps_evaluate_formed hloaded turn.room hscoped hglobals).after.1

/-- The turn of an interpreter in two stores that are alike in what it owns. -/
theorem alike_turn (h : Alike (s.Owns turn.globals) s t) :
    turn.run.outcome t = turn.run.outcome s ∧
      Alike ((turn.run.after s).Owns turn.globals) (turn.run.after s) (turn.run.after t) := by
  have hexpression : turn.expression t = turn.expression s := by
    rw [Turn.expression, Turn.expression, h.nextIdentity]
  have hloaded : Alike (s.Owns turn.globals) (turn.loaded s) (turn.loaded t) :=
    ⟨h.size, by rw [Turn.loaded, Turn.loaded, h.nextIdentity]; rfl, h.frames, .outer, .bound⟩
  have hroot : s.Owns turn.globals turn.globals := .root rfl
  rw [turn.outcome_run, turn.outcome_run, turn.after_run, turn.after_run, hexpression]
  obtain ⟨houtcome, larger, hlarger, halike⟩ := alike_evaluate hloaded turn.room hroot
    fun target hcaptures => absurd hcaptures (turn.not_captures_expression s target)
  refine ⟨houtcome, halike.restrict (closed_reaches _ _) fun other hother => ?_⟩
  refine halike.closed.of_reaches ?_ hother
  rintro root rfl
  exact hlarger _ hroot

end Turn

/-! ## Interpreters that are apart -/

/-- These are the global frames of interpreters in a store of which no two own a frame
together. -/
structure Separates (s : Store) (globals : List FrameId) : Prop where
  wellFormed : s.WellFormed
  lt_size : ∀ place ∈ globals, place < s.frames.size
  apart : ∀ first ∈ globals, ∀ second ∈ globals, first ≠ second →
    ∀ place, s.Owns first place → ¬ s.Owns second place

variable {globals : List FrameId}

theorem Separates.lt_of_owns (hs : s.Separates globals) {owner : FrameId} (howner : owner ∈ globals)
    (hplace : s.Owns owner place) : place < s.frames.size := by
  refine hs.wellFormed.lt_of_reaches ?_ hplace
  rintro root rfl
  exact hs.lt_size root howner

/-- A turn leaves everything that another interpreter owns as it was. -/
theorem Separates.frames_after_turn (hs : s.Separates globals) {turn : Turn}
    (hturn : turn.globals ∈ globals) {other : FrameId} (hother : other ∈ globals)
    (hne : other ≠ turn.globals) (hplace : s.Owns other place) :
    (turn.run.after s).frames[place]? = s.frames[place]? :=
  Store.frames_after_turn turn (hs.lt_of_owns hother hplace)
    (hs.apart other hother turn.globals hturn hne place hplace)

theorem Separates.owns_of_owns_after_turn (hs : s.Separates globals) {turn : Turn}
    (hturn : turn.globals ∈ globals) {other : FrameId} (hother : other ∈ globals)
    (hne : other ≠ turn.globals) (hplace : (turn.run.after s).Owns other place) :
    s.Owns other place :=
  reaches_of_unchanged (fun _ => hs.frames_after_turn hturn hother hne) hplace

theorem Separates.after_turn (hs : s.Separates globals) {turn : Turn}
    (hturn : turn.globals ∈ globals) : (turn.run.after s).Separates globals where
  wellFormed := hs.wellFormed.after_turn turn (hs.lt_size _ hturn)
  lt_size place hplace := Nat.lt_of_lt_of_le (hs.lt_size place hplace) (le_after_turn turn).1
  apart := by
    intro first hfirst second hsecond hne place howns howns'
    have hkept {owner : FrameId} (howner : owner ∈ globals)
        (howns : (turn.run.after s).Owns owner place) :
        s.Owns owner place ∨ owner = turn.globals ∧ s.frames.size ≤ place := by
      by_cases hturns : owner = turn.globals
      · subst hturns
        exact (owns_after_turn turn howns).imp_right fun hnew => ⟨rfl, hnew⟩
      · exact .inl (hs.owns_of_owns_after_turn hturn howner hturns howns)
    rcases hkept hfirst howns, hkept hsecond howns' with ⟨h | ⟨rfl, h⟩, h' | ⟨rfl, h'⟩⟩
    · exact hs.apart first hfirst second hsecond hne place h h'
    · exact absurd (hs.lt_of_owns hfirst h) (Nat.not_lt_of_le h')
    · exact absurd (hs.lt_of_owns hsecond h') (Nat.not_lt_of_le h)
    · exact hne rfl

/-! ## Interleavings -/

def afterTurns (turns : List Turn) (s : Store) : Store :=
  turns.foldl (fun s turn => turn.run.after s) s

/-- What one of the interpreters gets in its turns, in order. -/
def answers (owner : FrameId) : List Turn → Store → List (Except Failure Value)
  | [], _ => []
  | turn :: turns, s =>
    if turn.globals = owner then
      turn.run.outcome s :: answers owner turns (turn.run.after s)
    else answers owner turns (turn.run.after s)

/-- The store after so many frames and identities were used up, the frames for nothing. -/
def spend (s : Store) (places identities : Nat) : Store :=
  ⟨s.frames ++ Array.replicate places ⟨[], none⟩, s.nextIdentity + identities⟩

theorem frames_spend (s : Store) (places identities : Nat) (hplace : place < s.frames.size) :
    (s.spend places identities).frames[place]? = s.frames[place]? :=
  Array.getElem?_append_left hplace

@[simp]
theorem size_spend (s : Store) (places identities : Nat) :
    (s.spend places identities).frames.size = s.frames.size + places := by
  rw [spend, Array.size_append, Array.size_replicate]

/-- What one of the interpreters may get in its turns if the turns of the others do
nothing but use up places and identities. -/
inductive AnswersAlone (owner : FrameId) : List Turn → Store → List (Except Failure Value) → Prop
    where
  | nil {s : Store} : AnswersAlone owner [] s []
  | own {turn : Turn} {turns : List Turn} {s : Store} {answers : List (Except Failure Value)} :
      turn.globals = owner → AnswersAlone owner turns (turn.run.after s) answers →
      AnswersAlone owner (turn :: turns) s (turn.run.outcome s :: answers)
  | other {turn : Turn} {turns : List Turn} {s : Store} {answers : List (Except Failure Value)}
      (places identities : Nat) :
      turn.globals ≠ owner → AnswersAlone owner turns (s.spend places identities) answers →
      AnswersAlone owner (turn :: turns) s answers

theorem Separates.afterTurns (hs : s.Separates globals) {turns : List Turn}
    (hturns : ∀ turn ∈ turns, turn.globals ∈ globals) : (s.afterTurns turns).Separates globals := by
  induction turns generalizing s with
  | nil => exact hs
  | cons turn turns ih =>
      obtain ⟨hturn, hturns⟩ := List.forall_mem_cons.mp hturns
      exact ih (hs.after_turn hturn) hturns

/-- While only the others take turns, everything that an interpreter owns stays as it is. -/
theorem Separates.frames_afterTurns (hs : s.Separates globals) {turns : List Turn}
    (hturns : ∀ turn ∈ turns, turn.globals ∈ globals) {owner : FrameId} (howner : owner ∈ globals)
    (hothers : ∀ turn ∈ turns, turn.globals ≠ owner) (hplace : s.Owns owner place) :
    (s.afterTurns turns).frames[place]? = s.frames[place]? := by
  induction turns generalizing s with
  | nil => rfl
  | cons turn turns ih =>
      obtain ⟨hturn, hturns⟩ := List.forall_mem_cons.mp hturns
      obtain ⟨hne, hothers⟩ := List.forall_mem_cons.mp hothers
      have hkept : (turn.run.after s).Owns owner place := by
        refine reaches_of_unchanged (fun other hother => ?_) hplace
        have hbefore := hs.owns_of_owns_after_turn hturn howner (Ne.symm hne) hother
        exact (hs.frames_after_turn hturn howner (Ne.symm hne) hbefore).symm
      exact (ih (hs.after_turn hturn) hturns hothers hkept).trans
        (hs.frames_after_turn hturn howner (Ne.symm hne) hplace)

/-- The turn of one interpreter does to another nothing but to use up places and
identities. -/
theorem Separates.alike_spend (hs : s.Separates globals) {turn : Turn}
    (hturn : turn.globals ∈ globals) {owner : FrameId} (howner : owner ∈ globals)
    (hne : owner ≠ turn.globals) (h : Alike (s.Owns owner) s u) :
    Alike ((turn.run.after s).Owns owner) (turn.run.after s)
      (u.spend ((turn.run.after s).frames.size - s.frames.size)
        ((turn.run.after s).nextIdentity - s.nextIdentity)) where
  size := by
    rw [size_spend, h.size]
    exact Nat.add_sub_cancel' (le_after_turn turn).1
  nextIdentity := by
    rw [spend, h.nextIdentity]
    exact Nat.add_sub_cancel' (le_after_turn turn).2
  frames := by
    intro place hplace
    have howns := hs.owns_of_owns_after_turn hturn howner hne hplace
    have hlt : place < u.frames.size := h.size.symm ▸ hs.lt_of_owns howner howns
    rw [frames_spend _ _ _ hlt, h.frames place howns]
    exact (hs.frames_after_turn hturn howner hne howns).symm
  closed := closed_reaches _ _

/-- Whatever the others do, an interpreter gets the answers that it may get alone. -/
theorem Separates.answersAlone (hs : s.Separates globals) {turns : List Turn}
    (hturns : ∀ turn ∈ turns, turn.globals ∈ globals) {owner : FrameId} (howner : owner ∈ globals)
    (h : Alike (s.Owns owner) s u) : AnswersAlone owner turns u (answers owner turns s) := by
  induction turns generalizing s u with
  | nil => exact .nil
  | cons turn turns ih =>
      obtain ⟨hturn, hturns⟩ := List.forall_mem_cons.mp hturns
      rw [answers]
      split
      · next howns =>
          subst howns
          obtain ⟨houtcome, halike⟩ := alike_turn turn h
          rw [← houtcome]
          exact .own rfl (ih (hs.after_turn hturn) hturns halike)
      · next hne =>
          have hspend := hs.alike_spend hturn howner (Ne.symm hne) h
          exact .other _ _ hne (ih (hs.after_turn hturn) hturns hspend)

/-- A new global frame is apart from those that are there: it holds primitives only. -/
theorem Separates.newGlobalFrame (hs : s.Separates globals) (room : Nat) :
    ((Computation.newGlobalFrame room).after s).Separates (s.frames.size :: globals) := by
  obtain ⟨hwell, hnew⟩ := Discipline.newGlobalFrame Discipline.lawful_formed
    Discipline.founded_formed room hs.wellFormed
  obtain ⟨hconfined, hinside⟩ := Discipline.newGlobalFrame
    (Discipline.lawful_confined s fun _ => False) (Discipline.founded_confined s _) room
    (confined_start ⟨False.elim, False.elim⟩)
  -- What the new frame reaches is new, and what an old one reaches is as before.
  have hnewer {place : FrameId}
      (h : ((Computation.newGlobalFrame room).after s).Owns s.frames.size place) :
      s.frames.size ≤ place := by
    have hplace := hconfined.closed.of_reaches (fun root (hroot : root = _) => hroot ▸ hinside) h
    exact (hplace.resolve_left id).1
  have hold {owner place : FrameId} (howner : owner ∈ globals)
      (h : ((Computation.newGlobalFrame room).after s).Owns owner place) : s.Owns owner place :=
    reaches_of_unchanged
      (fun other hother => hconfined.outside other (hs.lt_of_owns howner hother) id) h
  refine ⟨hwell, List.forall_mem_cons.mpr ⟨hnew, fun place hplace => ?_⟩, ?_⟩
  · exact Nat.lt_of_lt_of_le (hs.lt_size place hplace) hconfined.size_le
  · intro first hfirst second hsecond hne place howns howns'
    rcases List.mem_cons.mp hfirst, List.mem_cons.mp hsecond with ⟨rfl | hfirst, rfl | hsecond⟩
    · exact hne rfl
    · exact Nat.not_lt_of_le (hnewer howns) (hs.lt_of_owns hsecond (hold hsecond howns'))
    · exact Nat.not_lt_of_le (hnewer howns') (hs.lt_of_owns hfirst (hold hfirst howns))
    · exact hs.apart first hfirst second hsecond hne place (hold hfirst howns)
        (hold hsecond howns')

/-- Effects are confined.  However it ends, an evaluation leaves every frame that cannot be
reached from its own frame and its expression as it was, and what can be reached from its
own frame and its value could be reached before or is new.  So a call gives no frame that
is there a new name, and changes none if nothing that it comes across assigns; and of
interpreters that are apart, whatever turns they take, each gets the answers that it may
get alone, and finds what it owns as it left it. -/
theorem evaluate_confined (s : Store) (room : Nat) (v : Value) (place : FrameId) :
    (∀ other < s.frames.size, ¬ s.ReachesFrom place v other →
        ((evaluate room v place).after s).frames[other]? = s.frames[other]?) ∧
      (∀ answer t, evaluate room v place s = .ok answer t →
        ∀ other, t.ReachesFrom place answer other →
          s.ReachesFrom place v other ∨ s.frames.size ≤ other ∧ other < t.frames.size) ∧
      (∀ f arguments, ∀ other < s.frames.size,
        ((apply room f arguments place).after s).names? other = s.names? other ∧
          ((∀ w ∈ f :: arguments, w.Pure) →
            (∀ reached name w, s.ReachesCall f arguments reached →
              s.bound? reached name = some w → w.Pure) →
            ((apply room f arguments place).after s).frames[other]? = s.frames[other]?)) ∧
      ∀ globals, s.Separates globals →
        ∀ turns : List Turn, (∀ turn ∈ turns, turn.globals ∈ globals) →
          (s.afterTurns turns).Separates globals ∧
            ∀ owner ∈ globals,
              AnswersAlone owner turns s (answers owner turns s) ∧
                ((∀ turn ∈ turns, turn.globals ≠ owner) → ∀ other, s.Owns owner other →
                  (s.afterTurns turns).frames[other]? = s.frames[other]?) := by
  refine ⟨?_, ?_, ?_, ?_⟩
  · exact fun other => s.frames_after_evaluate room v place
  · exact fun answer t hrun other => s.reachesFrom_answer room v place hrun
  · intro f arguments other hother
    exact ⟨s.names?_after_apply room place f arguments hother,
      fun hpure hbound => s.frames_after_apply room place f arguments hpure hbound hother⟩
  · intro globals hs turns hturns
    refine ⟨hs.afterTurns hturns, fun owner howner => ⟨?_, fun hothers other => ?_⟩⟩
    · exact hs.answersAlone hturns howner ⟨rfl, rfl, fun _ _ => rfl, .outer, .bound⟩
    · exact hs.frames_afterTurns hturns howner hothers

/-- Two interpreters, of which only the first one defines a name, and a call that defines
it once more. -/
theorem evaluate_confined_two :
    let s := (Computation.newGlobalFrame 100).after
      ((Computation.newGlobalFrame 100).after Store.empty)
    let definition : Datum := .list [.symbol "define", .symbol "x", .boolean true]
    let turns : List Turn := [⟨100, 0, definition⟩, ⟨100, 1, .symbol "x"⟩, ⟨100, 0, .symbol "x"⟩]
    let f : Value := .closure 0 [] (definition.load 1).1 0
    s.Separates [1, 0] ∧
      ((evaluate 100 (.symbol "x") 0).after s).frames[1]? = s.frames[1]? ∧
      ((apply 100 f [] 1).after s).frames[0]? = s.frames[0]? ∧
      AnswersAlone 1 turns s (answers 1 turns s) ∧
      (answers 0 turns s).map (·.isOk) = [true, true] ∧
      (answers 1 turns s).map (·.isOk) = [false] := by
  have hconfined (s : Store) (hs : s.Separates [1, 0])
      (hpure : Store.empty.PureInside (fun _ => False) s) :
      ((evaluate 100 (.symbol "x") 0).after s).frames[1]? = s.frames[1]? ∧
        ((apply 100 (.closure 0 [] (.list 1 [.symbol "define", .symbol "x", .boolean true]) 0)
          [] 1).after s).frames[0]? = s.frames[0]? ∧
        ∀ turns : List Turn, (∀ turn ∈ turns, turn.globals ∈ [1, 0]) →
          AnswersAlone 1 turns s (answers 1 turns s) := by
    obtain ⟨hunreached, -, -, hturns⟩ := s.evaluate_confined 100 (.symbol "x") 0
    obtain ⟨-, -, hcalls, -⟩ := s.evaluate_confined 100 (.symbol "x") 1
    refine ⟨hunreached 1 (hs.lt_size 1 (by simp)) fun hreached => ?_, ?_, fun turns hglobals => ?_⟩
    · exact hs.apart 1 (by simp) 0 (by simp) (by decide) 1 (.root rfl)
        (owns_of_reachesFrom ⟨100, 0, .symbol "x"⟩ hreached)
    · refine (hcalls _ _ 0 (hs.lt_size 0 (by simp))).2 ?_ fun reached name w _ hbound => ?_
      · simp only [List.mem_singleton, forall_eq]
        refine .closure (by simp) (.list ?_)
        simp only [List.forall_mem_cons, List.not_mem_nil, false_implies, implies_true, and_true]
        exact ⟨.symbol (by decide), .symbol (by decide), .boolean true⟩
      · obtain ⟨frame, hframe, -⟩ := Option.bind_eq_some_iff.mp hbound
        exact hpure.pure (.inr ⟨Nat.zero_le _, (Array.getElem?_eq_some_iff.mp hframe).1⟩) hbound
    · exact ((hturns [1, 0] hs turns hglobals).2 1 (by simp)).1
  -- Primitives do not assign.
  have hpure (s : Store) (hs : Store.empty.PureInside (fun _ => False) s) :
      Store.empty.PureInside (fun _ => False) ((Computation.newGlobalFrame 100).after s) :=
    (Discipline.newGlobalFrame (Discipline.lawful_pure _ _) (Discipline.founded_pure _ _) 100 hs).1
  have hempty : Store.empty.PureInside (fun _ => False) Store.empty :=
    ⟨confined_start ⟨False.elim, False.elim⟩,
      fun h => absurd (h.resolve_left id).2 (Nat.not_lt_zero _)⟩
  have hnone : Store.empty.Separates [] := ⟨wellFormed_empty, by simp, by simp⟩
  have hsize : ((Computation.newGlobalFrame 100).after Store.empty).frames.size = 1 := by
    decide +kernel
  have hseparates := (hnone.newGlobalFrame 100).newGlobalFrame 100
  rw [hsize] at hseparates
  obtain ⟨hframes, hcall, hturns⟩ := hconfined _ hseparates (hpure _ (hpure _ hempty))
  refine ⟨hseparates, hframes, hcall, hturns _ (by decide), ?_, ?_⟩
  · decide +kernel
  · decide +kernel

end Store

end Lisplet
