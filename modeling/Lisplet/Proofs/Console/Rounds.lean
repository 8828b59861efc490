import Mathlib.Data.List.Basic
import Lisplet.Console.Dialogue
import Lisplet.Proofs.Evaluation.Sequencing

/-!
# The course of a dialogue

A dialogue goes round by round.  A round starts when no line is pending, takes lines that
wait for more, and ends with the line that completes a chunk, with an interrupt or with
the end of the input.  Whatever the lines are, and wherever the user breaks off an
evaluation, the dialogue gets to the end of its input in this way.
-/

namespace Lisplet

namespace Console

/-- Lines that wait for more: they are not a complete chunk, and were not at the end of
an earlier one of them. -/
def Wait (lines : List String) : Prop :=
  ∀ front, front ≠ [] → front <+: lines → isComplete front = false

theorem wait_nil : Wait [] :=
  fun _ hne hprefix => absurd (List.prefix_nil.mp hprefix) hne

theorem Wait.concat {lines : List String} {line : String} (h : Wait lines)
    (hline : isComplete (lines ++ [line]) = false) : Wait (lines ++ [line]) := by
  intro front hne hprefix
  rcases List.prefix_concat_iff.mp hprefix with rfl | hearlier
  · exact hline
  · exact h front hne hearlier

end Console

open Console

namespace Dialogue

/-- The line that completes a chunk. -/
theorem receive_of_complete (dialogue : Dialogue) {line : String} (breach : Option Breach)
    (hcomplete : isComplete (dialogue.pending ++ [line]) = true) :
    dialogue.receive ⟨.line line, breach⟩ =
      ((dialogue.interpreter.reply dialogue.breaksOff breach
          (joinLines (dialogue.pending ++ [line]))).1,
        { dialogue with
          interpreter := (dialogue.interpreter.reply dialogue.breaksOff breach
            (joinLines (dialogue.pending ++ [line]))).2
          pending := [] }) :=
  if_pos hcomplete

/-- A line that waits for more. -/
theorem receive_of_waiting (dialogue : Dialogue) {line : String} (breach : Option Breach)
    (hwaiting : isComplete (dialogue.pending ++ [line]) = false) :
    dialogue.receive ⟨.line line, breach⟩ =
      ([], { dialogue with pending := dialogue.pending ++ [line] }) :=
  if_neg (Bool.eq_false_iff.mp hwaiting)

end Dialogue

/-! ## Rounds -/

namespace Prompts

def atPending (prompts : Prompts) (pending : Nat) : String :=
  if pending = 0 then prompts.first else prompts.continuation

/-- The prompts of a round: no line is pending at the first one, and one more at each of
the others. -/
def asked (prompts : Prompts) (count : Nat) : List Event :=
  (List.range count).map fun pending => .prompt (prompts.atPending pending)

end Prompts

namespace Console

end Console

/-! ## What every course has in common -/

namespace Console.Course

variable {prompts : Prompts} {breaksOff : Datum → Bool} {interpreter last : Interpreter}
  {items : List Item} {events : List Event}

end Console.Course

namespace Dialogue

end Dialogue

end Lisplet
