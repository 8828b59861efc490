import Lisplet.Proofs.Evaluation.Discipline
import Lisplet.Proofs.Evaluation.Renaming

/-!
# Two runs side by side

Many properties of the evaluator compare two runs of one expression: with different
room for nested calls, say, or in two stores that differ where nobody looks or that hand
out other places and identities.  A pairing says which pairs of stores the two runs may be
in at one moment, what may occur there, and how the second run names it; its laws say what
each of these owes to a single step.  This file gives the rules by which two computations
agree.  The evaluator is shown to agree with itself under every lawful pairing in
`Lisplet.Proofs.Evaluation.Simulation`.
-/

namespace Lisplet

/-- What two runs have in common.  What may occur is said of the first one. -/
structure Pairing where
  /-- The pairs of stores that the runs may be in, with what is known of them. -/
  Moment : Type
  first : Moment → Store
  second : Moment → Store
  /-- Which moments may come after a moment. -/
  grows : Moment → Moment → Prop
  /-- What the second run has for the places and identities of the first one. -/
  names : Renaming
  identity : Moment → Identity → Prop
  value : Moment → Value → Prop
  frame : Moment → FrameId → Prop
  /-- The expressions that may be evaluated. -/
  code : Moment → Value → Prop
  failure : Failure → Prop
  /-- Whether the second run may have more room than the first. -/
  roomier : Prop

namespace Pairing

def Fits (P : Pairing) (room more : Nat) : Prop := room = more ∨ P.roomier ∧ room ≤ more

def Later (P : Pairing) (m : P.Moment) (s t : Store) : Prop :=
  ∃ n, P.grows m n ∧ P.first n = s ∧ P.second n = t

/-- What the parts of a pairing owe to the single steps of an evaluation. -/
structure Lawful (P : Pairing) : Prop where
  grows_refl : ∀ m, P.grows m m
  grows_trans : ∀ {m n o}, P.grows m n → P.grows n o → P.grows m o
  identity_mono : ∀ {m n identity}, P.grows m n → P.identity m identity → P.identity n identity
  value_mono : ∀ {m n v}, P.grows m n → P.value m v → P.value n v
  frame_mono : ∀ {m n place}, P.grows m n → P.frame m place → P.frame n place
  code_mono : ∀ {m n v}, P.grows m n → P.code m v → P.code n v
  identity_zero : ∀ m, P.identity m 0
  number : ∀ {m x}, (∀ mark, x = .nan mark → P.identity m mark) → P.value m (.number x)
  boolean : ∀ m b, P.value m (.boolean b)
  list_iff : ∀ {m identity items},
    P.value m (.list identity items) ↔ P.identity m identity ∧ ∀ v ∈ items, P.value m v
  nextIdentity : ∀ m, (P.second m).nextIdentity = P.names.identity (P.first m).nextIdentity
  fresh : ∀ m, ∃ n, P.grows m n ∧
    P.first n = Discipline.renumbered (P.first m) ((P.first m).nextIdentity + 1) ∧
    P.second n = Discipline.renumbered (P.second m) ((P.second m).nextIdentity + 1) ∧
    P.identity n (P.first m).nextIdentity
  lookup : ∀ {m place name}, P.frame m place → P.code m (.symbol name) →
    (P.second m).lookup? (P.names.place place) name =
        ((P.first m).lookup? place name).map (Value.rename P.names) ∧
      ∀ v, (P.first m).lookup? place name = some v → P.value m v
  define : ∀ {m place name v}, P.frame m place → P.code m (.symbol name) → P.value m v →
    P.Later m ((P.first m).define place name v)
      ((P.second m).define (P.names.place place) name (v.rename P.names))
  assign : ∀ {m identity head name expression place v}, P.frame m place →
    P.code m (.list identity [head, .symbol name, expression]) →
    SpecialForm.ofHead? head = some .assignment → P.value m v →
    Option.Rel (P.Later m) ((P.first m).assign? place name v)
      ((P.second m).assign? (P.names.place place) name (v.rename P.names))
  size : ∀ m, (P.second m).frames.size = P.names.place (P.first m).frames.size
  call : ∀ {m identity parameters body scope arguments bindings},
    P.value m (.closure identity parameters body scope) → (∀ v ∈ arguments, P.value m v) →
    Computation.bindingsOf parameters arguments [] = .ok bindings →
    ∃ n, P.grows m n ∧
      P.first n = Discipline.extended (P.first m) bindings (some scope) ∧
      P.second n = Discipline.extended (P.second m) (bindings.rename P.names)
        (some (P.names.place scope)) ∧
      P.frame n (P.first m).frames.size ∧ P.code n body
  literal : ∀ {m v}, P.code m v → (∀ name, v ≠ .symbol name) →
    (∀ identity head operands, v ≠ .list identity (head :: operands)) → P.value m v
  operator : ∀ {m identity head operands}, P.code m (.list identity (head :: operands)) →
    SpecialForm.ofHead? head = none → P.code m head
  operands : ∀ {m identity head operands}, P.code m (.list identity (head :: operands)) →
    SpecialForm.ofHead? head ≠ some .quotation → ∀ v ∈ operands, P.code m v
  quoted : ∀ {m identity head datum}, P.code m (.list identity [head, datum]) →
    SpecialForm.ofHead? head = some .quotation → P.value m datum
  closure : ∀ {m identity head fresh inner parameters body place},
    P.code m (.list identity [head, .list inner parameters, body]) →
    SpecialForm.ofHead? head = some .abstraction →
    (∀ v ∈ parameters, SpecialForm.isSymbol v = true) → P.frame m place → P.identity m fresh →
    P.value m (.closure fresh parameters body place)
  count : ∀ {m identity head operands form}, P.code m (.list identity (head :: operands)) →
    SpecialForm.ofHead? head = some form →
    form.Takes operands.length ∨ P.failure (.operandCount form)
  ordinary : ∀ {failure : Failure}, failure.Ordinary → P.failure failure
  parameter : ∀ {m identity parameters body scope arguments other},
    P.value m (.closure identity parameters body scope) →
    Computation.bindingsOf parameters arguments [] = .error other →
    ∀ shown, P.failure (.boundNotSymbol shown)

def values (P : Pairing) (m : P.Moment) (vs : List Value) : Prop := ∀ v ∈ vs, P.value m v

/-- Started at a moment, two computations agree: they end alike, at a later moment, with
an answer as expected, which the second one gives in its own names, or with a failure that
may arise.  Where the second one has more room, nothing is said if the first one ran out of
room. -/
inductive Agree (P : Pairing) {α β : Type} (expected : P.Moment → α → Prop) (through : α → β)
    (first : Computation α) (second : Computation β) (m : P.Moment) : Prop where
  | ok (answer : α) (n : P.Moment) (hfirst : first (P.first m) = .ok answer (P.first n))
      (hsecond : second (P.second m) = .ok (through answer) (P.second n)) (hgrows : P.grows m n)
      (hanswer : expected n answer)
  | error (failure : Failure) (n : P.Moment)
      (hfirst : first (P.first m) = .error failure (P.first n))
      (hsecond : second (P.second m) = .error (failure.rename P.names) (P.second n))
      (hgrows : P.grows m n) (hfailure : P.failure failure)
  | excused (s : Store) (hfirst : first (P.first m) = .error .depthExceeded s)
      (hroomier : P.roomier)

namespace Fits

variable {P : Pairing} {room more : Nat}

theorem le (h : P.Fits room more) : room ≤ more := by
  rcases h with rfl | ⟨-, hle⟩
  · exact Nat.le_refl _
  · exact hle

/-- One call deeper, the room left still fits. -/
theorem exists_succ (h : P.Fits (room + 1) more) :
    ∃ less, more = less + 1 ∧ P.Fits room less := by
  rcases h with rfl | ⟨hroomier, hle⟩
  · exact ⟨room, rfl, .inl rfl⟩
  · obtain ⟨less, rfl⟩ : ∃ less, more = less + 1 := Nat.exists_eq_add_one.mpr (by omega)
    exact ⟨less, rfl, .inr ⟨hroomier, Nat.le_of_succ_le_succ hle⟩⟩

end Fits

namespace Agree

variable {P : Pairing} {α β γ δ : Type} {m : P.Moment} {through : α → β}

/-- With equal room, two computations that agree give the same outcome in the names of
each, and leave the stores of a later moment. -/
theorem outcome_after {expected : P.Moment → α → Prop} {first : Computation α}
    {second : Computation β} (h : P.Agree expected through first second m) (hroom : ¬ P.roomier) :
    second.outcome (P.second m) = P.names.outcome through (first.outcome (P.first m)) ∧
      ∃ n, P.grows m n ∧ P.first n = first.after (P.first m) ∧
        P.second n = second.after (P.second m) ∧
        ∀ answer, first.outcome (P.first m) = .ok answer → expected n answer := by
  cases h with
  | ok answer n hfirst hsecond hgrows hanswer =>
      rw [Computation.outcome_of_ok hfirst, Computation.outcome_of_ok hsecond]
      refine ⟨rfl, n, hgrows, (Computation.after_of_ok hfirst).symm,
        (Computation.after_of_ok hsecond).symm, ?_⟩
      rintro _ ⟨⟩
      exact hanswer
  | error failure n hfirst hsecond hgrows =>
      rw [Computation.outcome_of_error hfirst, Computation.outcome_of_error hsecond]
      exact ⟨rfl, n, hgrows, (Computation.after_of_error hfirst).symm,
        (Computation.after_of_error hsecond).symm, nofun⟩
  | excused s hfirst hroomier => exact absurd hroomier hroom

theorem pure (hP : P.Lawful) {expected : P.Moment → α → Prop} {answer : α}
    (h : expected m answer) :
    P.Agree expected through (pure answer : Computation α) (pure (through answer)) m :=
  .ok answer m rfl rfl (hP.grows_refl m) h

theorem throw (hP : P.Lawful) {expected : P.Moment → α → Prop} {failure : Failure}
    (h : P.failure failure) :
    P.Agree expected through (throw failure : Computation α)
      (throw (failure.rename P.names)) m :=
  .error failure m rfl rfl (hP.grows_refl m) h

/-- Where the first run has no room left, the second one has none either, or more. -/
theorem noRoom (hP : P.Lawful) {expected : P.Moment → α → Prop} {more : Nat}
    {second : Computation β} (hfits : P.Fits 0 more)
    (hsecond : more = 0 → second = MonadExcept.throw Failure.depthExceeded) :
    P.Agree expected through (MonadExcept.throw Failure.depthExceeded : Computation α) second
      m := by
  rcases hfits with rfl | ⟨hroomier, -⟩
  · rw [hsecond rfl]
    exact throw hP (hP.ordinary trivial)
  · exact .excused _ rfl hroomier

/-- The second steps start at whatever moment the first ones lead to. -/
theorem bind (hP : P.Lawful) {middle : P.Moment → α → Prop} {expected : P.Moment → γ → Prop}
    {throughLater : γ → δ} {first : Computation α} {second : Computation β}
    {firstLater : α → Computation γ} {secondLater : β → Computation δ}
    (h : P.Agree middle through first second m)
    (hlater : ∀ n answer, P.grows m n → middle n answer →
      P.Agree expected throughLater (firstLater answer) (secondLater (through answer)) n) :
    P.Agree expected throughLater (first >>= firstLater) (second >>= secondLater) m := by
  cases h with
  | excused s hfirst hroomier => exact .excused s (Computation.bind_of_error hfirst) hroomier
  | error failure n hfirst hsecond hgrows hfailure =>
      exact .error failure n (Computation.bind_of_error hfirst)
        (Computation.bind_of_error hsecond) hgrows hfailure
  | ok answer n hfirst hsecond hgrows hmiddle =>
      have hfirstLater : (first >>= firstLater) (P.first m) = firstLater answer (P.first n) :=
        Computation.bind_of_ok hfirst
      have hsecondLater : (second >>= secondLater) (P.second m) =
          secondLater (through answer) (P.second n) := Computation.bind_of_ok hsecond
      cases hlater n answer hgrows hmiddle with
      | excused s hnext hroomier => exact .excused s (hfirstLater.trans hnext) hroomier
      | error failure o hnext hother hmore hfailure =>
          exact .error failure o (hfirstLater.trans hnext) (hsecondLater.trans hother)
            (hP.grows_trans hgrows hmore) hfailure
      | ok final o hnext hother hmore hanswer =>
          exact .ok final o (hfirstLater.trans hnext) (hsecondLater.trans hother)
            (hP.grows_trans hgrows hmore) hanswer

theorem discard (hP : P.Lawful) {expected : P.Moment → α → Prop} {first : Computation α}
    {second : Computation β} (h : P.Agree expected through first second m) :
    P.Agree (fun _ _ => True) id (discard first) (discard second) m := by
  simp only [Functor.discard, LawfulFunctor.map_const, Function.comp_apply, ← bind_pure_comp]
  exact bind hP h fun n _ _ _ => pure hP trivial

/-- What a step may rely on is still there for the steps after it, and so is what it
answered. -/
theorem mapM (hP : P.Lawful) {expected : P.Moment → β → Prop} {throughItem : α → γ}
    {through : β → δ} {items : List α} {first : α → Computation β} {second : γ → Computation δ}
    (hstep : ∀ item ∈ items, ∀ n, P.grows m n →
      P.Agree expected through (first item) (second (throughItem item)) n)
    (hmono : ∀ {n o answer}, P.grows n o → expected n answer → expected o answer) :
    P.Agree (fun n answers => ∀ answer ∈ answers, expected n answer) (List.map through)
      (items.mapM first) ((items.map throughItem).mapM second) m := by
  induction items generalizing m with
  | nil =>
      rw [List.map_nil, List.mapM_nil, List.mapM_nil]
      exact pure hP (by simp)
  | cons item items ih =>
      rw [List.map_cons, List.mapM_cons, List.mapM_cons]
      apply bind hP (hstep item (List.mem_cons_self ..) m (hP.grows_refl m))
      intro n answer hgrows hanswer
      refine bind hP (ih fun other hother o hlater => ?_) ?_
      · exact hstep other (List.mem_cons_of_mem _ hother) o (hP.grows_trans hgrows hlater)
      · intro o rest hlater hrest
        exact pure hP (List.forall_mem_cons.mpr ⟨hmono hlater hanswer, hrest⟩)

theorem freshIdentity (hP : P.Lawful) :
    P.Agree P.identity P.names.identity Computation.freshIdentity Computation.freshIdentity
      m := by
  obtain ⟨n, hgrows, hfirst, hsecond, hidentity⟩ := hP.fresh m
  refine .ok (P.first m).nextIdentity n ?_ ?_ hgrows hidentity
  · rw [hfirst]
    rfl
  · rw [hsecond, ← hP.nextIdentity m]
    rfl

theorem newList (hP : P.Lawful) {items : List Value} (h : P.values m items) :
    P.Agree P.value (Value.rename P.names) (Computation.newList items)
      (Computation.newList (items.map (Value.rename P.names))) m := by
  apply bind hP (freshIdentity hP)
  intro n identity hgrows hidentity
  rw [← Value.rename_list]
  exact pure hP (hP.list_iff.mpr ⟨hidentity, fun v hv => hP.value_mono hgrows (h v hv)⟩)

theorem refuse (hP : P.Lawful) {expected : P.Moment → α → Prop} {room more : Nat}
    (hfits : P.Fits room more) {v : Value} {cause : Datum → Failure}
    (hcause : ∀ shown, (cause shown).rename P.names = cause (shown.rename P.names))
    (h : ∀ shown, P.failure (cause shown)) :
    P.Agree expected through (Computation.refuse room v cause : Computation α)
      (Computation.refuse more (v.rename P.names) cause) m := by
  rw [Computation.refuse, Computation.refuse, Value.datum_rename, Datum.writingDepth_rename]
  by_cases hroom : v.datum.writingDepth ≤ room
  · rw [if_pos hroom, if_pos (Nat.le_trans hroom hfits.le), ← hcause]
    exact throw hP (h _)
  · rw [if_neg hroom]
    rcases hfits with rfl | ⟨hroomier, -⟩
    · rw [if_neg hroom]
      exact throw hP (hP.ordinary trivial)
    · exact .excused _ rfl hroomier

theorem lookup (hP : P.Lawful) {place : FrameId} {name : String} (hplace : P.frame m place)
    (hname : P.code m (.symbol name)) :
    P.Agree P.value (Value.rename P.names) (Computation.lookup place name)
      (Computation.lookup (P.names.place place) name) m := by
  obtain ⟨hsame, hvalue⟩ := hP.lookup hplace hname
  cases hfound : (P.first m).lookup? place name with
  | some v =>
      rw [hfound] at hsame
      refine .ok v m ?_ ?_ (hP.grows_refl m) (hvalue v hfound)
      · rw [Computation.lookup_apply, hfound]
      · rw [Computation.lookup_apply, hsame]
        rfl
  | none =>
      rw [hfound] at hsame
      refine .error (.unbound name) m ?_ ?_ (hP.grows_refl m)
        (hP.ordinary trivial)
      · rw [Computation.lookup_apply, hfound]
      · rw [Computation.lookup_apply, hsame]
        rfl

theorem define (hP : P.Lawful) {room more : Nat} {place : FrameId} {name : String} {v : Value}
    (hplace : P.frame m place) (hname : P.code m (.symbol name)) (hv : P.value m v) :
    P.Agree (fun _ _ => True) id (Computation.define room place (.symbol name) v)
      (Computation.define more (P.names.place place) (.symbol name) (v.rename P.names))
      m := by
  obtain ⟨n, hgrows, hfirst, hsecond⟩ := hP.define hplace hname hv
  refine .ok () n ?_ ?_ hgrows trivial
  · rw [hfirst]
    rfl
  · rw [hsecond]
    rfl

theorem assign (hP : P.Lawful) {room more : Nat} {place : FrameId} {identity : Identity}
    {head expression v : Value} {name : String} (hplace : P.frame m place)
    (hcode : P.code m (.list identity [head, .symbol name, expression]))
    (hhead : SpecialForm.ofHead? head = some .assignment) (hv : P.value m v) :
    P.Agree (fun _ _ => True) id (Computation.assign room place (.symbol name) v)
      (Computation.assign more (P.names.place place) (.symbol name) (v.rename P.names))
      m := by
  have hassign := hP.assign hplace hcode hhead hv
  cases hfound : (P.first m).assign? place name v with
  | some s =>
      rw [hfound] at hassign
      cases hother : (P.second m).assign? (P.names.place place) name (v.rename P.names) with
      | none =>
          rw [hother] at hassign
          cases hassign
      | some t =>
          rw [hother] at hassign
          cases hassign with
          | some hlater =>
              obtain ⟨n, hgrows, hfirst, hsecond⟩ := hlater
              refine .ok () n ?_ ?_ hgrows trivial
              · rw [Computation.assign_apply, hfound, hfirst]
              · rw [Computation.assign_apply, hother, hsecond]
  | none =>
      rw [hfound] at hassign
      cases hother : (P.second m).assign? (P.names.place place) name (v.rename P.names) with
      | some t =>
          rw [hother] at hassign
          cases hassign
      | none =>
          refine .error (.unbound name) m ?_ ?_ (hP.grows_refl m)
            (hP.ordinary trivial)
          · rw [Computation.assign_apply, hfound]
          · rw [Computation.assign_apply, hother]
            rfl

end Agree

end Pairing

end Lisplet
