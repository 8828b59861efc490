import Lisplet.Proofs.Console.Balance
import Lisplet.Proofs.Console.Rounds
import Lisplet.Proofs.Evaluation.Composition
import Lisplet.Text.Lines

/-!
# Scripts and dialogues

A text can be run as a whole, or its lines can be typed into a dialogue, which runs them
in chunks.  When no form of the text fails, both show the same and leave the same
interpreter: a chunk ends where the parentheses balance, so it never cuts a form, and a
run over the forms of two chunks is the one run after the other.
-/

namespace Lisplet

namespace Text

theorem feedLines_go_ne_nil (current cs : List Char) : feedLines.go current cs ≠ [] := by
  induction cs generalizing current with
  | nil => exact List.cons_ne_nil _ _
  | cons c cs ih =>
      rw [feedLines.go]
      split
      · exact List.cons_ne_nil _ _
      · exact ih _

theorem intercalate_feedLines_go (current cs : List Char) :
    ['\n'].intercalate (feedLines.go current cs) = current.reverse ++ cs := by
  induction cs generalizing current with
  | nil => simp [feedLines.go]
  | cons c cs ih =>
      rw [feedLines.go]
      split
      · next hfeed =>
          rw [List.intercalate_cons_of_ne_nil (feedLines_go_ne_nil [] cs), ih, eq_of_beq hfeed]
          simp
      · rw [ih]
        simp

end Text

namespace Console

/-- Lines put together again are the text they were cut from. -/
@[simp]
theorem joinLines_feedLines (text : String) :
    joinLines ((Text.feedLines text.toList).map String.ofList) = text := by
  rw [← String.toList_inj, joinLines, String.toList_intercalate, List.map_map]
  have hid : String.toList ∘ String.ofList = id := funext fun cs => String.toList_ofList
  rw [hid, List.map_id]
  exact Text.intercalate_feedLines_go [] text.toList

/-- The end of a line separates tokens. -/
@[simp]
theorem split_joinLines_append (front back : List String) :
    Token.split (joinLines (front ++ back)).toList =
      Token.split (joinLines front).toList ++ Token.split (joinLines back).toList := by
  by_cases hfront : front = []
  · subst hfront
    simp [joinLines]
  by_cases hback : back = []
  · subst hback
    simp [joinLines]
  rw [joinLines, String.intercalate_append_of_ne_nil hfront hback, String.toList_append,
    String.toList_append, List.append_assoc]
  exact Token.split_append_blank _ _ (by decide)

end Console

/-! ## Runs over a text in two parts -/

namespace Interpreter

variable {breaksOff : Datum → Bool} {interpreter : Interpreter} {text front back : String}

/-- A run that comes to its end may be cut in two where the parentheses balance. -/
theorem run_cut
    (hsplit : Token.split text.toList = Token.split front.toList ++ Token.split back.toList)
    (hcut : Console.balance front.toList ≤ 0)
    (hfinished : (interpreter.run breaksOff (some text)).1.ending = .finished) :
    interpreter.run breaksOff (some text) =
      Transcript.andThen (interpreter.run breaksOff (some front))
        (·.run breaksOff (some back)) := by
  have hread := readSource_failure_of_finished hfinished
  rw [readSource, hsplit] at hread
  rw [Token.balance_eq_balanceFrom_split] at hcut
  exact run_append hsplit (failure_readForms_of_append hread hcut)

end Interpreter

/-! ## The dialogue over the lines of a text -/

/-- What an event shows as a line, prompts and notes apart. -/
def Event.written? : Event → Option String
  | write text => some text
  | _ => none

namespace Dialogue

open Console

def written (dialogue : Dialogue) (inputs : List Input) : List String :=
  (dialogue.run inputs).1.filterMap Event.written?

def interpreterAfter (dialogue : Dialogue) (inputs : List Input) : Interpreter :=
  (dialogue.run inputs).2.interpreter

@[simp]
theorem filterMap_written (notes : List Note) (lines : List String) :
    (notes.map Event.note ++ lines.map Event.write).filterMap Event.written? = lines := by
  rw [List.filterMap_append, List.filterMap_map, List.filterMap_map]
  have hnotes : notes.filterMap (Event.written? ∘ Event.note) = [] :=
    List.filterMap_eq_nil_iff.mpr fun _ _ => rfl
  have hlines : lines.filterMap (Event.written? ∘ Event.write) = lines := List.filterMap_some
  rw [hnotes, hlines, List.nil_append]

/-- A chunk that is run to its end shows its results.  A blank one is passed over, which
comes to the same. -/
theorem reply_of_finished {interpreter : Interpreter} {breaksOff : Datum → Bool} {chunk : String}
    (hfinished : (interpreter.run breaksOff (some chunk)).1.ending = .finished) :
    (interpreter.reply breaksOff none chunk).1.filterMap Event.written? =
        (interpreter.run breaksOff (some chunk)).1.results ∧
      (interpreter.reply breaksOff none chunk).2 = (interpreter.run breaksOff (some chunk)).2 := by
  rw [Interpreter.reply]
  split
  · next hblank =>
      rw [Interpreter.run_of_split_nil (Token.split_of_all_blank hblank)]
      exact ⟨rfl, rfl⟩
  · simp only [Interpreter.runWith, hfinished, filterMap_written, Transcript.report, and_self]

@[simp]
theorem written_cons (dialogue : Dialogue) (input : Input) (inputs : List Input) :
    dialogue.written (input :: inputs) =
      (dialogue.feed input).1.filterMap Event.written? ++
        (dialogue.feed input).2.written inputs := by
  rw [written, run]
  exact List.filterMap_append

@[simp]
theorem interpreterAfter_cons (dialogue : Dialogue) (input : Input) (inputs : List Input) :
    dialogue.interpreterAfter (input :: inputs) =
      (dialogue.feed input).2.interpreterAfter inputs := rfl

/-- Lines that wait for more are not a text that reads without a failure. -/
theorem isComplete_of_finished {interpreter : Interpreter} {breaksOff : Datum → Bool}
    {lines : List String}
    (hfinished : (interpreter.run breaksOff (some (joinLines lines))).1.ending = .finished) :
    isComplete lines = true := by
  have hbalance := balanceFrom_of_readForms (Interpreter.readSource_failure_of_finished hfinished)
  rw [← Token.balance_eq_balanceFrom_split] at hbalance
  simp [isComplete, hbalance]

/-- The lines that are there already, and those that come, make up a text that is run to
its end: the dialogue shows its results, and the end of the input. -/
theorem run_lines (lines : List String) (dialogue : Dialogue)
    (hpending : dialogue.pending = [] ∨ isComplete dialogue.pending = false)
    (hfinished : (dialogue.interpreter.run dialogue.breaksOff
      (some (joinLines (dialogue.pending ++ lines)))).1.ending = .finished) :
    dialogue.written (lines.map .line) =
        (dialogue.interpreter.run dialogue.breaksOff
          (some (joinLines (dialogue.pending ++ lines)))).1.results ++ [""] ∧
      dialogue.interpreterAfter (lines.map .line) =
        (dialogue.interpreter.run dialogue.breaksOff
          (some (joinLines (dialogue.pending ++ lines)))).2 := by
  induction lines generalizing dialogue with
  | nil =>
      have hnone : dialogue.pending = [] := by
        refine hpending.resolve_right fun hwaits => ?_
        rw [List.append_nil] at hfinished
        simp [isComplete_of_finished hfinished] at hwaits
      rw [hnone, List.append_nil, Interpreter.run_of_split_nil (by rfl)]
      exact ⟨rfl, rfl⟩
  | cons line lines ih =>
      have hline : dialogue.pending ++ line :: lines = dialogue.pending ++ [line] ++ lines :=
        List.append_cons ..
      rw [hline] at hfinished ⊢
      rw [List.map_cons, written_cons, interpreterAfter_cons]
      cases hcomplete : isComplete (dialogue.pending ++ [line]) with
      | false =>
          rw [feed, dialogue.receive_of_waiting none hcomplete]
          exact ih { dialogue with pending := dialogue.pending ++ [line] } (.inr hcomplete)
            hfinished
      | true =>
          have hcut := Interpreter.run_cut (split_joinLines_append _ lines)
            (of_decide_eq_true hcomplete) hfinished
          rw [hcut] at hfinished ⊢
          obtain ⟨hfirst, hboth⟩ := Transcript.andThen_of_finished hfinished
          rw [hboth] at hfinished ⊢
          obtain ⟨hshown, hnext⟩ := reply_of_finished hfirst
          rw [feed, dialogue.receive_of_complete none hcomplete, hshown, hnext]
          obtain ⟨hwritten, hafter⟩ := ih
            { dialogue with
              pending := []
              interpreter := (dialogue.interpreter.run dialogue.breaksOff
                (some (joinLines (dialogue.pending ++ [line])))).2 } (.inl rfl) hfinished
          rw [hwritten, hafter]
          exact ⟨(List.append_assoc ..).symm, rfl⟩

/-- Running a text and typing its lines into a dialogue come to the same, if no form of
the text fails: the dialogue shows the lines of the report, in order, and then the end of
the input, and it leaves the interpreter that the run leaves. -/
theorem run_feedLines (interpreter : Interpreter) (prompts : Prompts) (breaksOff : Datum → Bool)
    (text : String)
    (hfinished : (interpreter.run breaksOff (some text)).1.ending = .finished) :
    let inputs := (Text.feedLines text.toList).map fun line => Input.line (String.ofList line)
    let dialogue : Dialogue := ⟨interpreter, prompts, breaksOff, []⟩
    dialogue.written inputs = (interpreter.run breaksOff (some text)).1.report ++ [""] ∧
      dialogue.interpreterAfter inputs = (interpreter.run breaksOff (some text)).2 := by
  have hlines : (Text.feedLines text.toList).map (fun line => Input.line (String.ofList line)) =
      ((Text.feedLines text.toList).map String.ofList).map .line := by
    rw [List.map_map]
    rfl
  have hreport : (interpreter.run breaksOff (some text)).1.report =
      (interpreter.run breaksOff (some text)).1.results := by
    rw [Transcript.report, hfinished]
  have hrun := run_lines ((Text.feedLines text.toList).map String.ofList)
    ⟨interpreter, prompts, breaksOff, []⟩ (.inl rfl)
  dsimp only
  rw [List.nil_append, joinLines_feedLines] at hrun
  rw [hlines, hreport]
  exact hrun hfinished

/-- A definition over two lines, a blank line, and two forms that share a line. -/
theorem run_feedLines_square :
    let text := "(define square (lambda (x)\n  (* x x)))\n\n(square 7) (list 1\n 2)"
    let lines := ["(define square (lambda (x)", "  (* x x)))", "", "(square 7) (list 1", " 2)"]
    let interpreter := Interpreter.create 100
    let run := interpreter.run Interpreter.uninterrupted (some text)
    let dialogue : Dialogue := ⟨interpreter, ⟨"> ", ". "⟩, Interpreter.uninterrupted, []⟩
    run.1.ending = .finished ∧ dialogue.written (lines.map .line) = ["49", "(1 2)", ""] ∧
      dialogue.interpreterAfter (lines.map .line) = run.2 := by
  have hrun : ((Interpreter.create 100).run Interpreter.uninterrupted (some
          "(define square (lambda (x)\n  (* x x)))\n\n(square 7) (list 1\n 2)")).1.ending =
        .finished ∧
      ((Interpreter.create 100).run Interpreter.uninterrupted (some
          "(define square (lambda (x)\n  (* x x)))\n\n(square 7) (list 1\n 2)")).1.report =
        ["49", "(1 2)"] := by
    decide +kernel
  have hlines : (Text.feedLines
        "(define square (lambda (x)\n  (* x x)))\n\n(square 7) (list 1\n 2)".toList).map
          (fun line => Input.line (String.ofList line)) =
      ["(define square (lambda (x)", "  (* x x)))", "", "(square 7) (list 1", " 2)"].map
        .line := by
    decide +kernel
  have hboth := run_feedLines (Interpreter.create 100) ⟨"> ", ". "⟩ Interpreter.uninterrupted _
    hrun.1
  rw [hlines, hrun.2] at hboth
  exact ⟨hrun.1, hboth⟩

end Dialogue

end Lisplet
