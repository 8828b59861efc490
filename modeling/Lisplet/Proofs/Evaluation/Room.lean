import Lisplet.Proofs.Evaluation.Preservation
import Lisplet.Proofs.Evaluation.Sequencing
import Lisplet.Proofs.Reading.SyntaxTree

/-!
# More room for nested calls

A run that does not fail for lack of room is the same with more room: everything that
takes room, which is reading, evaluating, comparing and writing values down, gives the
answer that it gave or failed for lack of room, and nobody catches that failure.
-/

namespace Lisplet

/-! ## Evaluation -/

/-- Runs that agree where everything is allowed are the same, unless the first one had too
little room. -/
theorem Pairing.Agree.eq_or_exhausted {α : Type}
    {expected : (Discipline.unrestricted.diagonal True).Moment → α → Prop}
    {first second : Computation α} {s : Store}
    (h : (Discipline.unrestricted.diagonal True).Agree expected id first second ⟨s, trivial⟩) :
    second s = first s ∨ ∃ t, first s = .error .depthExceeded t := by
  cases h with
  | ok answer n hfirst hsecond => exact .inl (hsecond.trans hfirst.symm)
  | error failure n hfirst hsecond =>
      have hsame := congrArg (EStateM.Result.error (α := α) · n.1) failure.rename_same
      exact .inl ((hsecond.trans hsame).trans hfirst.symm)
  | excused t hfirst => exact .inr ⟨t, hfirst⟩

theorem lawful_roomier : (Discipline.unrestricted.diagonal True).Lawful :=
  Discipline.lawful_diagonal Discipline.lawful_unrestricted True

/-- More room changes nothing, unless there was too little. -/
theorem evaluate_eq_or_exhausted {room more : Nat} (hle : room ≤ more) (v : Value)
    (place : FrameId) (s : Store) :
    evaluate more v place s = evaluate room v place s ∨
      ∃ t, evaluate room v place s = .error .depthExceeded t :=
  (Pairing.agree_evaluate_same lawful_roomier rfl (.inr ⟨trivial, hle⟩) trivial
    trivial).eq_or_exhausted

theorem apply_eq_or_exhausted {room more : Nat} (hle : room ≤ more) (f : Value)
    (arguments : List Value) (place : FrameId) (s : Store) :
    apply more f arguments place s = apply room f arguments place s ∨
      ∃ t, apply room f arguments place s = .error .depthExceeded t :=
  (Pairing.agree_apply_same lawful_roomier rfl (.inr ⟨trivial, hle⟩) trivial
    fun _ _ => trivial).eq_or_exhausted

/-! ## Reading and writing -/

/-- The text of a datum, if there was room to write it down, is the text with more. -/
theorem Datum.write_eq_or_exhausted {room more : Nat} (hle : room ≤ more) (d : Datum) :
    d.write more = d.write room ∨ d.write room = .error .depthExceeded := by
  rw [write, write]
  by_cases hroom : d.writingDepth ≤ room
  · rw [if_pos hroom, if_pos (Nat.le_trans hroom hle)]
    exact .inl rfl
  · rw [if_neg hroom]
    exact .inr rfl

theorem readFrom_eq_or_exhausted {room more : Nat} (hle : room ≤ more) (opened : OpenLists)
    (tokens : List String) :
    readFrom more opened tokens = readFrom room opened tokens ∨
      (readFrom room opened tokens).1 = .error .depthExceeded := by
  induction tokens generalizing room more opened with
  | nil => exact .inl rfl
  | cons token tokens ih =>
      rw [readFrom.eq_def, readFrom.eq_def room]
      dsimp only
      split
      · split
        · exact .inl rfl
        · exact .inl rfl
        · exact ih (Nat.succ_le_succ hle) _
      · cases room with
        | zero => exact .inr rfl
        | succ room =>
            obtain ⟨more, rfl⟩ : ∃ less, more = less + 1 := Nat.exists_eq_add_one.mpr (by omega)
            dsimp only
            split
            · exact ih (Nat.le_of_succ_le_succ hle) _
            · split
              · exact .inl rfl
              · exact ih hle _

/-- A reading with too little room stops early: what it gives is the beginning of what a
reading with more room gives. -/
def Reading.Exhausts (reading full : Reading) : Prop :=
  reading.failure = some .depthExceeded ∧ reading.forms <+: full.forms

theorem readForms_eq_or_exhausts {room more : Nat} (hle : room ≤ more) (tokens : List String) :
    readForms more tokens = readForms room tokens ∨
      (readForms room tokens).Exhausts (readForms more tokens) := by
  have hread (tokens : List String) : readDatum more tokens = readDatum room tokens ∨
      (readDatum room tokens).1 = .error .depthExceeded := readFrom_eq_or_exhausted hle [] tokens
  fun_induction readForms room tokens with
  | case1 tokens hempty =>
      rw [List.isEmpty_iff.mp hempty, SyntaxTree.readForms_nil]
      exact .inl rfl
  | case2 tokens hne failure rest hstep =>
      rw [List.isEmpty_iff] at hne
      rcases hread tokens with hsame | hexhausted
      · exact .inl (SyntaxTree.readForms_of_error hne (hsame.trans hstep))
      · rw [hstep] at hexhausted
        cases hexhausted
        exact .inr ⟨rfl, List.nil_prefix⟩
  | case3 tokens hne form rest hstep hshorter later ih =>
      rcases hread tokens with hsame | hexhausted
      · rw [SyntaxTree.readForms_of_ok (hsame.trans hstep)]
        rcases ih with hlater | ⟨hfailure, hforms⟩
        · exact .inl (by rw [hlater])
        · exact .inr ⟨hfailure, List.cons_prefix_cons.mpr ⟨rfl, hforms⟩⟩
      · rw [hstep] at hexhausted
        cases hexhausted

theorem readSource_eq_or_exhausts {room more : Nat} (hle : room ≤ more)
    (source : Option String) :
    readSource more source = readSource room source ∨
      (readSource room source).Exhausts (readSource more source) := by
  cases source with
  | none => exact .inl rfl
  | some source => exact readForms_eq_or_exhausts hle _

/-! ## Running a source text -/

namespace Interpreter

variable {α : Type} {interpreter : Interpreter} {limit : Nat}

def withLimit (interpreter : Interpreter) (limit : Nat) : Interpreter := { interpreter with limit }

theorem perform_withLimit (interpreter : Interpreter) (limit : Nat) (computation : Computation α) :
    (interpreter.withLimit limit).perform computation =
      ((interpreter.perform computation).1,
        (interpreter.perform computation).2.withLimit limit) := by
  rw [perform, perform, show (interpreter.withLimit limit).store = interpreter.store from rfl]
  cases computation interpreter.store <;> rfl

theorem evaluateForm_withLimit (hle : interpreter.limit ≤ limit) (form : Datum) :
    (interpreter.withLimit limit).evaluateForm form =
        ((interpreter.evaluateForm form).1, (interpreter.evaluateForm form).2.withLimit limit) ∨
      (interpreter.evaluateForm form).1 = .error .depthExceeded := by
  have hloading : (interpreter.withLimit limit).loading form =
      ((interpreter.loading form).1, (interpreter.loading form).2.withLimit limit) := rfl
  rw [evaluateForm_eq, evaluateForm_eq, hloading, perform_withLimit, perform, perform]
  rcases evaluate_eq_or_exhausted hle (interpreter.loading form).1 interpreter.globals
    (interpreter.loading form).2.store with hsame | ⟨t, hexhausted⟩
  · exact .inl (by rw [← hsame]; rfl)
  · exact .inr (by rw [hexhausted])

/-- A run is as it would be with another limit, or it failed for lack of room. -/
def SameOrExhausted (limit : Nat) (run other : Transcript α × Interpreter) : Prop :=
  other = (run.1, run.2.withLimit limit) ∨ run.1.ending = .failed .depthExceeded

theorem SameOrExhausted.andThen {run other : Transcript α × Interpreter}
    {later later' : Interpreter → Transcript α × Interpreter} (h : SameOrExhausted limit run other)
    (hlater : SameOrExhausted limit (later run.2) (later' (run.2.withLimit limit))) :
    SameOrExhausted limit (Transcript.andThen run later) (Transcript.andThen other later') := by
  rcases h with rfl | hexhausted
  · rw [Transcript.andThen, Transcript.andThen]
    cases hending : run.1.ending with
    | finished =>
        dsimp only
        rcases hlater with hlater | hlater
        · rw [hlater]
          exact .inl rfl
        · exact .inr hlater
    | failed | interrupted => exact .inl rfl
  · rw [Transcript.andThen, hexhausted]
    exact .inr hexhausted

theorem evaluateForms_singleton_withLimit (hle : interpreter.limit ≤ limit)
    {use use' : Value → Except Failure α}
    (huse : ∀ v, use' v = use v ∨ use v = .error .depthExceeded) (breaksOff : Datum → Bool)
    (form : Datum) :
    SameOrExhausted limit (evaluateForms use breaksOff [form] none interpreter)
      (evaluateForms use' breaksOff [form] none (interpreter.withLimit limit)) := by
  rw [evaluateForms.eq_def, evaluateForms.eq_def use']
  dsimp only
  rw [show (interpreter.withLimit limit).limit = limit from rfl]
  rcases Datum.write_eq_or_exhausted hle form with hwrite | hwrite
  swap
  · exact .inr (by rw [hwrite])
  rw [hwrite]
  cases form.write interpreter.limit with
  | error tooDeep => exact .inl rfl
  | ok written =>
      dsimp only
      split
      · exact .inl rfl
      rcases evaluateForm_withLimit hle form with heval | heval
      swap
      · generalize interpreter.evaluateForm form = run at heval
        obtain ⟨outcome, after⟩ := run
        exact .inr (by rw [show outcome = _ from heval])
      rw [heval]
      generalize interpreter.evaluateForm form = run
      obtain ⟨outcome, after⟩ := run
      cases outcome with
      | error failed => exact .inl rfl
      | ok v =>
          dsimp only
          rcases huse v with hv | hv
          · rw [hv]
            cases use v <;> exact .inl rfl
          · exact .inr (by rw [hv])

/-- The forms are evaluated as before, or the run failed for lack of room. -/
theorem evaluateForms_withLimit (hle : interpreter.limit ≤ limit)
    {use use' : Value → Except Failure α}
    (huse : ∀ v, use' v = use v ∨ use v = .error .depthExceeded) (breaksOff : Datum → Bool)
    (forms : List Datum) (failure : Option Failure) :
    SameOrExhausted limit (evaluateForms use breaksOff forms failure interpreter)
      (evaluateForms use' breaksOff forms failure (interpreter.withLimit limit)) := by
  induction forms generalizing interpreter with
  | nil => cases failure <;> exact .inl rfl
  | cons form forms ih =>
      have hafter := limit_evaluateForms use breaksOff [form] none interpreter
      rw [← List.singleton_append, evaluateForms_append, evaluateForms_append]
      exact (evaluateForms_singleton_withLimit hle huse breaksOff form).andThen (ih (hafter ▸ hle))

/-- Forms that were not read for lack of room make no difference, if the run does not
come to them. -/
theorem evaluateForms_of_exhausts {reading full : Reading} (hexhausts : reading.Exhausts full)
    (use : Value → Except Failure α) (breaksOff : Datum → Bool)
    (hending : (evaluateForms use breaksOff reading.forms reading.failure interpreter).1.ending ≠
      .failed .depthExceeded) :
    evaluateForms use breaksOff full.forms full.failure interpreter =
      evaluateForms use breaksOff reading.forms reading.failure interpreter := by
  obtain ⟨hfailure, later, hforms⟩ := hexhausts
  have hparts := evaluateForms_append use breaksOff reading.forms [] reading.failure interpreter
  rw [List.append_nil] at hparts
  rw [hparts] at hending ⊢
  rw [← hforms, evaluateForms_append]
  cases hfirst : (evaluateForms use breaksOff reading.forms none interpreter).1.ending with
  | finished =>
      refine absurd ?_ hending
      rw [Transcript.andThen, hfirst, hfailure]
      rfl
  | failed failure => rw [Transcript.andThen, Transcript.andThen, hfirst]
  | interrupted => rw [Transcript.andThen, Transcript.andThen, hfirst]

theorem evaluateSource_withLimit (hle : interpreter.limit ≤ limit)
    {use use' : Value → Except Failure α}
    (huse : ∀ v, use' v = use v ∨ use v = .error .depthExceeded) (breaksOff : Datum → Bool)
    (source : Option String)
    (hending : (interpreter.evaluateSource use breaksOff source).1.ending ≠
      .failed .depthExceeded) :
    (interpreter.withLimit limit).evaluateSource use' breaksOff source =
      ((interpreter.evaluateSource use breaksOff source).1,
        (interpreter.evaluateSource use breaksOff source).2.withLimit limit) := by
  rw [evaluateSource] at hending
  have hread : evaluateForms use breaksOff (readSource limit source).forms
        (readSource limit source).failure interpreter =
      evaluateForms use breaksOff (readSource interpreter.limit source).forms
        (readSource interpreter.limit source).failure interpreter := by
    rcases readSource_eq_or_exhausts hle source with hsame | hexhausts
    · rw [hsame]
    · exact evaluateForms_of_exhausts hexhausts use breaksOff hending
  rw [← hread] at hending
  rw [evaluateSource, evaluateSource, ← hread]
  exact (evaluateForms_withLimit hle huse breaksOff _ _).resolve_right hending

/-- A run that does not fail for lack of room is the same with more room: it ends in the
same way, shows the same and leaves the same store. -/
theorem eval_run_withLimit (interpreter : Interpreter) (hle : interpreter.limit ≤ limit)
    (source : Option String) :
    ((interpreter.eval source).1 ≠ .error .depthExceeded →
        (interpreter.withLimit limit).eval source =
          ((interpreter.eval source).1, (interpreter.eval source).2.withLimit limit)) ∧
      ∀ breaksOff, (interpreter.run breaksOff source).1.ending ≠ .failed .depthExceeded →
        (interpreter.withLimit limit).run breaksOff source =
          ((interpreter.run breaksOff source).1,
            (interpreter.run breaksOff source).2.withLimit limit) := by
  constructor
  · intro heval
    have hending : (interpreter.values source).1.ending ≠ .failed .depthExceeded := by
      intro hending
      apply heval
      change (interpreter.values source).1.lastValue = _
      rw [Transcript.lastValue, hending]
    have hvalues := evaluateSource_withLimit hle (fun _ => .inl rfl) uninterrupted source hending
    rw [eval, eval, values, values, hvalues]
  · intro breaksOff hending
    have hrun := evaluateSource_withLimit hle
      (fun v => Datum.write_eq_or_exhausted hle v.datum) breaksOff source hending
    rw [run, run]
    dsimp only
    rw [show (interpreter.withLimit limit).limit = limit from rfl, hrun]

/-- A countdown, which takes more room with every call. -/
theorem eval_run_withLimit_countdown :
    let interpreter := Interpreter.create 100
    let source := some "(define f (lambda (n) (if (= n 0) (quote done) (f (- n 1))))) (f 9)"
    (interpreter.eval source).1.isOk = true ∧
      (interpreter.withLimit 1000).eval source =
        ((interpreter.eval source).1, (interpreter.eval source).2.withLimit 1000) ∧
      (interpreter.run uninterrupted source).1.ending = .finished ∧
      (interpreter.withLimit 1000).run uninterrupted source =
        ((interpreter.run uninterrupted source).1,
          (interpreter.run uninterrupted source).2.withLimit 1000) := by
  have hok : ((Interpreter.create 100).eval (some
      "(define f (lambda (n) (if (= n 0) (quote done) (f (- n 1))))) (f 9)")).1.isOk = true := by
    decide +kernel
  have hfinished : ((Interpreter.create 100).run uninterrupted (some
      "(define f (lambda (n) (if (= n 0) (quote done) (f (- n 1))))) (f 9)")).1.ending =
        .finished := by
    decide +kernel
  have hle : (Interpreter.create 100).limit ≤ 1000 := by decide +kernel
  refine ⟨hok, (eval_run_withLimit _ hle _).1 ?_, hfinished, (eval_run_withLimit _ hle _).2 _ ?_⟩
  · intro herror
    rw [herror] at hok
    cases hok
  · rw [hfinished]
    nofun

end Interpreter

end Lisplet
