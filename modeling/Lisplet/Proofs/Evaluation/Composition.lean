import Lisplet.Proofs.Evaluation.Sequencing
import Lisplet.Proofs.Reading.Splitting
import Lisplet.Proofs.Reading.SyntaxTree

/-!
# Texts in two parts

A line end separates tokens, and behind forms that can be read the reader starts anew.  So
a text of two parts is run as the first part and then, if that came to its end, as the
second one on what the first one left.  Whether the second part can be read makes no
difference to the first.
-/

namespace Lisplet.Interpreter

variable {breaksOff : Datum → Bool} {interpreter : Interpreter} {text front back : String}

theorem run_of_split_nil (hsplit : Token.split text.toList = []) :
    interpreter.run breaksOff (some text) = (⟨[], [], .finished⟩, interpreter) := by
  rw [run, evaluateSource, readSource, hsplit, SyntaxTree.readForms_nil]
  rfl

/-- A text is run in two parts if the first part can be read. -/
theorem run_append
    (hsplit : Token.split text.toList = Token.split front.toList ++ Token.split back.toList)
    (hfront : (readSource interpreter.limit (some front)).failure = none) :
    interpreter.run breaksOff (some text) =
      Transcript.andThen (interpreter.run breaksOff (some front))
        (·.run breaksOff (some back)) := by
  rw [run_eq_runForms, run_eq_runForms, hfront, readSource, hsplit, readForms_append _ hfront,
    runForms_append]
  refine Transcript.andThen_congr fun _ => ?_
  rw [run_eq_runForms, limit_runForms]
  rfl

/-- A run that comes to its end has read the whole text. -/
theorem readSource_failure_of_finished {source : Option String}
    (hfinished : (interpreter.run breaksOff source).1.ending = .finished) :
    (readSource interpreter.limit source).failure = none :=
  failure_eq_none_of_finished hfinished

/-- The first form that fails ends the run: what the forms before it showed and did is
kept, and the forms behind it make no difference. -/
theorem run_of_failing_form {source : Option String} {before after : List Datum} {form : Datum}
    (hforms : (readSource interpreter.limit source).forms = before ++ form :: after)
    (hfails : ((interpreter.runForms breaksOff before none).2.runForms breaksOff [form]
      none).1.ending ≠ .finished) :
    interpreter.run breaksOff source =
      Transcript.andThen (interpreter.runForms breaksOff before none)
        (·.runForms breaksOff [form] none) := by
  rw [run_eq_runForms, hforms, runForms_append]
  refine Transcript.andThen_congr fun _ => ?_
  rw [← List.singleton_append, runForms_append]
  exact Transcript.andThen_eq_first _ hfails

/-- A syntax error ends the run where it stands: what the forms before it showed and did is
kept. -/
theorem run_of_unreadable {source : Option String} {failure : Failure}
    (hfailure : (readSource interpreter.limit source).failure = some failure) :
    interpreter.run breaksOff source =
      Transcript.andThen
        (interpreter.runForms breaksOff (readSource interpreter.limit source).forms none)
        (⟨[], [], .failed failure⟩, ·) := by
  rw [run_eq_runForms, hfailure, ← List.append_nil (readSource interpreter.limit source).forms,
    runForms_append, List.append_nil]
  rfl

/-- A text of two parts with a line end between them, of which the first can be read.  If
the run of the first part comes to its end, what follows is the run of the second part on
the interpreter that the first one left; if not, there is nothing more, and the second part
has no effect.  In any text the first form that fails, or else the first syntax error, ends
the run, and what the forms before it showed and did is kept. -/
theorem run_line_append (interpreter : Interpreter) (breaksOff : Datum → Bool)
    (front back : String)
    (hfront : (readSource interpreter.limit (some front)).failure = none) :
    let first := interpreter.run breaksOff (some front)
    let later := first.2.run breaksOff (some back)
    let whole := interpreter.run breaksOff (some (front ++ "\n" ++ back))
    (first.1.ending = .finished → whole = (first.1.append later.1, later.2)) ∧
      (first.1.ending ≠ .finished → whole = first) ∧
      (∀ source before form after,
        (readSource interpreter.limit source).forms = before ++ form :: after →
        let kept := interpreter.runForms breaksOff before none
        let step := kept.2.runForms breaksOff [form] none
        kept.1.ending = .finished → step.1.ending ≠ .finished →
          interpreter.run breaksOff source = (kept.1.append step.1, step.2)) ∧
      ∀ source failure, (readSource interpreter.limit source).failure = some failure →
        let kept := interpreter.runForms breaksOff (readSource interpreter.limit source).forms none
        kept.1.ending = .finished →
          interpreter.run breaksOff source =
            ({ kept.1 with ending := .failed failure }, kept.2) := by
  have hsplit : Token.split (front ++ "\n" ++ back).toList =
      Token.split front.toList ++ Token.split back.toList := by
    rw [String.toList_append, String.toList_append, List.append_assoc]
    exact Token.split_append_blank _ _ (by decide)
  have hwhole : interpreter.run breaksOff (some (front ++ "\n" ++ back)) = _ :=
    run_append hsplit hfront
  refine ⟨fun hfirst => ?_, fun hfirst => ?_, ?_, ?_⟩
  · rw [hwhole, Transcript.andThen_eq_append _ hfirst]
  · rw [hwhole, Transcript.andThen_eq_first _ hfirst]
  · intro source before form after hforms kept step hkept hstep
    rw [run_of_failing_form hforms hstep, Transcript.andThen_eq_append _ hkept]
  · intro source failure hfailure kept hkept
    rw [run_of_unreadable hfailure, Transcript.andThen_eq_append _ hkept]
    simp [Transcript.append, kept]

/-- A definition and a use of it, then an assignment, and a stray parenthesis in front of
another form. -/
theorem run_line_append_stray :
    let front := "(define x 2) (* x 3)"
    let back := "(set! x 5) x ) y"
    let interpreter := Interpreter.create 100
    let first := interpreter.run uninterrupted (some front)
    let later := first.2.run uninterrupted (some back)
    (readSource interpreter.limit (some front)).failure = none ∧
      first.1.ending = .finished ∧ first.1.results = ["6"] ∧
      later.1.ending ≠ .finished ∧ later.1.results = ["5"] ∧
      interpreter.run uninterrupted (some (front ++ "\n" ++ back)) =
        (first.1.append later.1, later.2) := by
  intro front back interpreter first later
  have hread : (readSource interpreter.limit (some front)).failure.isNone := by decide +kernel
  have hfirst : first.1.ending = .finished ∧ first.1.results = ["6"] := by decide +kernel
  have hlater : later.1.ending ≠ .finished ∧ later.1.results = ["5"] := by decide +kernel
  have hfront := Option.isNone_iff_eq_none.mp hread
  refine ⟨hfront, hfirst.1, hfirst.2, hlater.1, hlater.2, ?_⟩
  exact (run_line_append interpreter uninterrupted front back hfront).1 hfirst.1

end Lisplet.Interpreter
