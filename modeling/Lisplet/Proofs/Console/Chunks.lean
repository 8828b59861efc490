import Lisplet.Proofs.Console.Balance
import Lisplet.Proofs.Console.Rounds
import Lisplet.Proofs.Console.Script

/-!
# Chunks and the reader

Lines are collected until their parentheses balance, while the reader goes by tokens and
has two ways to reject a text.  The count tells what the reader will say: zero for a
text that it accepts, negative for a parenthesis that closes nothing, positive for a text
that ends too early.  So a chunk is the shortest front part of the lines that the reader
does not reject for its early end.
-/

namespace Lisplet

/-! ## What the balance tells -/

namespace Remnant

theorem failure?_eq_none_iff {remnant : Remnant} :
    remnant.failure? = none ↔ remnant.balance = 0 := by
  cases remnant with
  | nothing => exact ⟨fun _ => rfl, fun _ => rfl⟩
  | stray => simp [failure?, balance]
  | unclosed children inner =>
      simp only [failure?, balance]
      exact iff_of_false (Option.some_ne_none _) (by omega)

theorem failure?_eq_unexpectedClose_iff {remnant : Remnant} :
    remnant.failure? = some .unexpectedClose ↔ remnant.balance < 0 := by
  cases remnant with
  | nothing => simp [failure?, balance]
  | stray => exact ⟨fun _ => Int.negSucc_lt_zero 0, fun _ => rfl⟩
  | unclosed children inner =>
      simp only [failure?, balance]
      exact iff_of_false (by simp) (by omega)

theorem failure?_eq_unexpectedEnd_iff {remnant : Remnant} :
    remnant.failure? = some .unexpectedEnd ↔ 0 < remnant.balance := by
  cases remnant with
  | nothing => simp [failure?, balance]
  | stray => simp [failure?, balance]
  | unclosed children inner =>
      simp only [failure?, balance, true_iff]
      omega

end Remnant

namespace Console

/-- A text ends in a remnant, which decides its balance and, unless something in the text
is too deep, the failure of the reader. -/
theorem exists_remnant (limit : Nat) (text : String) :
    ∃ remnant : Remnant, balance text.toList = remnant.balance ∧
      ((readSource limit (some text)).failure = remnant.failure? ∨
        (readSource limit (some text)).failure = some .depthExceeded) := by
  obtain ⟨trees, remnant, hrow⟩ := Remnant.exists_eq_tokensAll_append (Token.split text.toList)
  refine ⟨remnant, ?_, ?_⟩
  · rw [Token.balance_eq_balanceFrom_split, hrow, Remnant.balanceFrom_tokens]
  · rw [readSource, hrow, Remnant.failure_readForms]
    split
    · exact .inl rfl
    · exact .inr rfl

/-- With any room, the reader asks for more text only where parentheses are open. -/
theorem balance_pos_of_unexpectedEnd {limit : Nat} {text : String}
    (hread : (readSource limit (some text)).failure = some .unexpectedEnd) :
    0 < balance text.toList := by
  obtain ⟨remnant, hbalance, hfailure | hdeep⟩ := exists_remnant limit text
  · rw [hbalance]
    exact Remnant.failure?_eq_unexpectedEnd_iff.mp (hfailure.symm.trans hread)
  · rw [hdeep] at hread
    cases hread

section Fits

variable {limit : Nat} {text : String}

theorem exists_remnant_of_nesting (hfits : Token.nesting 0 (Token.split text.toList) ≤ limit) :
    ∃ remnant : Remnant, balance text.toList = remnant.balance ∧
      (readSource limit (some text)).failure = remnant.failure? := by
  obtain ⟨remnant, hbalance, hfailure | hdeep⟩ := exists_remnant limit text
  · exact ⟨remnant, hbalance, hfailure⟩
  · exact absurd hdeep (readForms_ne_depthExceeded hfits)

/-- The balance of a text that fits tells what the reader makes of it. -/
theorem failure_readSource_iff (hfits : Token.nesting 0 (Token.split text.toList) ≤ limit) :
    ((readSource limit (some text)).failure = none ↔ balance text.toList = 0) ∧
      ((readSource limit (some text)).failure = some .unexpectedClose ↔
        balance text.toList < 0) ∧
      ((readSource limit (some text)).failure = some .unexpectedEnd ↔
        0 < balance text.toList) := by
  obtain ⟨remnant, hbalance, hfailure⟩ := exists_remnant_of_nesting hfits
  rw [hbalance, hfailure]
  exact ⟨Remnant.failure?_eq_none_iff, Remnant.failure?_eq_unexpectedClose_iff,
    Remnant.failure?_eq_unexpectedEnd_iff⟩

end Fits

/-! ## The shortest front part -/

/-- The first front part of some lines that is accepted, of those that are not empty. -/
structure ShortestFront (accepts : List String → Prop) (lines front : List String) : Prop where
  ne_nil : front ≠ []
  front_of : front <+: lines
  accepted : accepts front
  minimal : ∀ shorter, shorter ≠ [] → shorter <+: front → accepts shorter → shorter = front

namespace ShortestFront

variable {accepts accepts' : List String → Prop} {lines front other : List String}

/-- What is accepted beyond the front part makes no difference. -/
theorem congr (hsame : ∀ part, part <+: front → (accepts part ↔ accepts' part)) :
    ShortestFront accepts lines front ↔ ShortestFront accepts' lines front := by
  constructor
  · intro h
    exact ⟨h.ne_nil, h.front_of, (hsame front List.prefix_rfl).mp h.accepted,
      fun shorter hne hshorter haccepted => h.minimal shorter hne hshorter
        ((hsame shorter hshorter).mpr haccepted)⟩
  · intro h
    exact ⟨h.ne_nil, h.front_of, (hsame front List.prefix_rfl).mpr h.accepted,
      fun shorter hne hshorter haccepted => h.minimal shorter hne hshorter
        ((hsame shorter hshorter).mp haccepted)⟩

/-- There is only one. -/
theorem eq (h : ShortestFront accepts lines front) (hother : ShortestFront accepts lines other) :
    front = other := by
  rcases List.prefix_or_prefix_of_prefix h.front_of hother.front_of with hle | hle
  · exact hother.minimal front h.ne_nil hle h.accepted
  · exact (h.minimal other hother.ne_nil hle hother.accepted).symm

/-- Lines that wait, and then one that completes them. -/
theorem of_wait {waiting later : List String} {line : String} (hwait : Wait waiting)
    (hcomplete : isComplete (waiting ++ [line]) = true) :
    ShortestFront (isComplete · = true) (waiting ++ line :: later) (waiting ++ [line]) where
  ne_nil := List.append_ne_nil_of_right_ne_nil _ (List.cons_ne_nil _ _)
  front_of := ⟨later, (List.append_cons ..).symm⟩
  accepted := hcomplete
  minimal shorter hne hshorter haccepted := by
    refine (List.prefix_concat_iff.mp hshorter).resolve_right fun hearlier => ?_
    simp [hwait shorter hne hearlier] at haccepted

end ShortestFront

/-- Lines are collected up to the one that completes a chunk, or to their end, if they all
wait.  Some may be pending already. -/
theorem collectChunk_lines (lines : List String) {pending : List String} (hpending : Wait pending) :
    (∃ waiting line later, lines = waiting ++ line :: later ∧ Wait (pending ++ waiting) ∧
        isComplete (pending ++ waiting ++ [line]) = true ∧
        collectChunk pending (lines.map .line) =
          (.chunk (joinLines (pending ++ waiting ++ [line])), waiting.length + 1)) ∨
      Wait (pending ++ lines) ∧
        collectChunk pending (lines.map .line) = (.endOfInput, lines.length + 1) := by
  induction lines generalizing pending with
  | nil => exact .inr ⟨by rwa [List.append_nil], rfl⟩
  | cons line lines ih =>
      rw [List.map_cons, collectChunk]
      cases hcomplete : isComplete (pending ++ [line]) with
      | true => exact .inl ⟨[], line, lines, rfl, by simpa using hpending, by simpa, by simp⟩
      | false =>
          rw [if_neg (by decide)]
          rcases ih (hpending.concat hcomplete) with
            ⟨waiting, last, later, rfl, hwait, hlast, hcollect⟩ | ⟨hwait, hcollect⟩
          · rw [← List.append_cons] at hwait hlast hcollect
            exact .inl ⟨line :: waiting, last, later, rfl, hwait, hlast, by rw [hcollect]; rfl⟩
          · rw [← List.append_cons] at hwait
            exact .inr ⟨hwait, by rw [hcollect]; rfl⟩

/-- The chunk that is collected is the shortest front part of the lines that is complete,
and no other line is asked for. -/
theorem collectChunk_eq_chunk_iff {lines : List String} {chunk : String} {asked : Nat} :
    collectChunk [] (lines.map .line) = (.chunk chunk, asked) ↔
      ∃ front, ShortestFront (isComplete · = true) lines front ∧ chunk = joinLines front ∧
        asked = front.length := by
  rcases collectChunk_lines lines wait_nil with
    ⟨waiting, line, later, rfl, hwait, hcomplete, hcollect⟩ | ⟨hwait, hcollect⟩
  · have hshortest : ShortestFront (isComplete · = true) (waiting ++ line :: later)
        (waiting ++ [line]) := .of_wait hwait hcomplete
    rw [hcollect]
    constructor
    · rintro ⟨⟩
      exact ⟨_, hshortest, rfl, by simp⟩
    · rintro ⟨front, hfront, rfl, rfl⟩
      rw [hfront.eq hshortest]
      simp
  · rw [hcollect]
    refine ⟨nofun, ?_⟩
    rintro ⟨front, hfront, -⟩
    have hwaits := hwait front hfront.ne_nil hfront.front_of
    rw [hfront.accepted] at hwaits
    cases hwaits

theorem collectChunk_eq_endOfInput_iff {lines : List String} :
    (collectChunk [] (lines.map .line)).1 = .endOfInput ↔ Wait lines := by
  rcases collectChunk_lines lines wait_nil with
    ⟨waiting, line, later, rfl, hwait, hcomplete, hcollect⟩ | ⟨hwait, hcollect⟩
  · have hshortest : ShortestFront (isComplete · = true) (waiting ++ line :: later)
        (waiting ++ [line]) := .of_wait hwait hcomplete
    rw [hcollect]
    refine ⟨nofun, fun hwaits => ?_⟩
    have hincomplete := hwaits _ hshortest.ne_nil hshortest.front_of
    exact absurd (hincomplete.symm.trans hshortest.accepted) nofun
  · exact ⟨fun _ => hwait, fun _ => by rw [hcollect]⟩

/-- Whatever the input holds, a chunk has no open parentheses. -/
theorem balance_of_collectChunk {inputs : List Input} {pending : List String} {chunk : String}
    {asked : Nat} (hcollect : collectChunk pending inputs = (.chunk chunk, asked)) :
    balance chunk.toList ≤ 0 := by
  induction inputs generalizing pending asked with
  | nil => cases hcollect
  | cons input inputs ih =>
      cases input with
      | interrupt => cases hcollect
      | line text =>
          rw [collectChunk] at hcollect
          dsimp only at hcollect
          split at hcollect
          · next hcomplete =>
              cases hcollect
              exact of_decide_eq_true hcomplete
          · cases hlater : collectChunk (pending ++ [text]) inputs with
            | mk result later =>
                rw [hlater] at hcollect
                cases hcollect
                exact ih hlater

/-! ## Chunks are what the reader does not want more of -/

/-- Tokens are nested no more deeply than the row that they begin. -/
theorem nesting_le_nesting_append (depth : Nat) (front back : List String) :
    Token.nesting depth front ≤ Token.nesting depth (front ++ back) := by
  induction front generalizing depth with
  | nil => exact SyntaxTree.le_nesting depth back
  | cons token front ih =>
      have hopened := ih (depth + 1)
      have hclosed := ih (depth - 1)
      have hsame := ih depth
      rw [List.cons_append, Token.nesting, Token.nesting]
      split
      · exact hopened
      · split <;> omega

/-- Whether the reader rejects the text of some lines because it ends too early. -/
def Unfinished (limit : Nat) (lines : List String) : Prop :=
  (readSource limit (some (joinLines lines))).failure = some .unexpectedEnd

/-- Among lines that fit, a front part is complete if the reader does not ask for more. -/
theorem isComplete_iff_not_unfinished {limit : Nat} {lines front : List String}
    (hfits : Token.nesting 0 (Token.split (joinLines lines).toList) ≤ limit)
    (hfront : front <+: lines) : isComplete front = true ↔ ¬ Unfinished limit front := by
  obtain ⟨back, rfl⟩ := hfront
  rw [split_joinLines_append] at hfits
  have hnesting := Nat.le_trans (nesting_le_nesting_append 0 _ _) hfits
  rw [Unfinished, (failure_readSource_iff hnesting).2.2, isComplete, decide_eq_true_iff]
  exact Int.not_lt.symm

/-- The count of parentheses and the reader agree.  A text whose nesting fits is read
without a failure exactly if its balance is zero; a parenthesis that closes nothing is the
failure exactly if the balance is negative, and an early end exactly if it is positive.
So, where the lines that are asked for fit, a chunk is collected from the shortest front
part that the reader does not reject for its early end, and the input ends exactly if there
is no such part.  With any room, no chunk ever fails for its early end. -/
theorem chunks_agree_with_reader (limit : Nat) :
    (∀ text : String, Token.nesting 0 (Token.split text.toList) ≤ limit →
        ((readSource limit (some text)).failure = none ↔ balance text.toList = 0) ∧
        ((readSource limit (some text)).failure = some .unexpectedClose ↔
          balance text.toList < 0) ∧
        ((readSource limit (some text)).failure = some .unexpectedEnd ↔
          0 < balance text.toList)) ∧
      (∀ (lines : List String) (asked : Nat),
        Token.nesting 0 (Token.split (joinLines (lines.take asked)).toList) ≤ limit →
        ∀ chunk, collectChunk [] (lines.map .line) = (.chunk chunk, asked) ↔
          ∃ front, ShortestFront (¬ Unfinished limit ·) lines front ∧ chunk = joinLines front ∧
            asked = front.length) ∧
      (∀ lines, Token.nesting 0 (Token.split (joinLines lines).toList) ≤ limit →
        ((collectChunk [] (lines.map .line)).1 = .endOfInput ↔
          ∀ front, front ≠ [] → front <+: lines → Unfinished limit front)) ∧
      (∀ inputs chunk asked, collectChunk [] inputs = (.chunk chunk, asked) →
        (readSource limit (some chunk)).failure ≠ some .unexpectedEnd) ∧
      Failure.unexpectedClose.report = "LispSyntaxError: unexpected ')'" ∧
      Failure.unexpectedEnd.report = "LispSyntaxError: unexpected EOF while reading" := by
  refine ⟨fun _ => failure_readSource_iff, fun lines asked hfits chunk => ?_,
    fun lines hfits => ?_, fun inputs chunk asked hcollect hread => ?_, rfl, rfl⟩
  · -- the front part is what was asked for, on either side
    have hsame {front : List String} (hfront : front <+: lines) (hasked : asked = front.length) :
        ShortestFront (isComplete · = true) lines front ↔
          ShortestFront (¬ Unfinished limit ·) lines front := by
      rw [hasked, ← List.prefix_iff_eq_take.mp hfront] at hfits
      exact ShortestFront.congr fun _ => isComplete_iff_not_unfinished hfits
    rw [collectChunk_eq_chunk_iff]
    constructor
    · rintro ⟨front, hfront, hchunk, hasked⟩
      exact ⟨front, (hsame hfront.front_of hasked).mp hfront, hchunk, hasked⟩
    · rintro ⟨front, hfront, hchunk, hasked⟩
      exact ⟨front, (hsame hfront.front_of hasked).mpr hfront, hchunk, hasked⟩
  · rw [collectChunk_eq_endOfInput_iff]
    refine forall_congr' fun front => forall_congr' fun _ => forall_congr' fun hfront => ?_
    have hiff := isComplete_iff_not_unfinished hfits hfront
    rw [← Bool.not_eq_true, hiff, Classical.not_not]
  · have hpositive := balance_pos_of_unexpectedEnd hread
    have hcomplete := balance_of_collectChunk hcollect
    omega

/-- A form over three lines, one of them blank, with a stray parenthesis behind it, and a
line that is not asked for and would not fit. -/
theorem chunks_agree_with_reader_stray :
    let lines := ["(define f (lambda (x)", "", "  x)) f) g", "((((((1))))))"]
    let chunk := "(define f (lambda (x)\n\n  x)) f) g"
    Token.nesting 0 (Token.split (joinLines (lines.take 3)).toList) ≤ 4 ∧
      collectChunk [] (lines.map .line) = (.chunk chunk, 3) ∧
      ShortestFront (¬ Unfinished 4 ·) lines (lines.take 3) ∧
      Token.nesting 0 (Token.split chunk.toList) ≤ 4 ∧ balance chunk.toList < 0 ∧
      (readSource 4 (some chunk)).failure = some .unexpectedClose := by
  have hfits : Token.nesting 0 (Token.split (joinLines
      (["(define f (lambda (x)", "", "  x)) f) g", "((((((1))))))"].take 3)).toList) ≤ 4 := by
    decide +kernel
  have hcollect : collectChunk []
      (["(define f (lambda (x)", "", "  x)) f) g", "((((((1))))))"].map .line) =
        (.chunk "(define f (lambda (x)\n\n  x)) f) g", 3) := by
    decide +kernel
  have htext : Token.nesting 0 (Token.split
        "(define f (lambda (x)\n\n  x)) f) g".toList) ≤ 4 ∧
      balance "(define f (lambda (x)\n\n  x)) f) g".toList < 0 := by
    decide +kernel
  obtain ⟨htexts, hlines, -⟩ := chunks_agree_with_reader 4
  obtain ⟨front, hshortest, -, hasked⟩ := (hlines _ 3 hfits _).mp hcollect
  have hfront := List.prefix_iff_eq_take.mp hshortest.front_of
  rw [← hasked] at hfront
  exact ⟨hfits, hcollect, hfront ▸ hshortest, htext.1, htext.2,
    (htexts _ htext.1).2.1.mpr htext.2⟩

end Console

end Lisplet
