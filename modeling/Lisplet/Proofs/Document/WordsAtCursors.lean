import Lisplet.Document.Cursor
import Lisplet.Proofs.Document.Places

/-!
# The word at a cursor and the lexemes

A cursor cuts the line it is in, and the word at the cursor is what reaches up to the cut
and what goes on behind it.  A lexeme ends where the text has a blank of any kind, the word
at a cursor ends at a few of them only, and lines end at more characters than a place
counts.  So the word at a cursor in a lexeme is the lexeme exactly if the characters next
to it are among those few, where lines end plainly before it.
-/

namespace Lisplet

namespace Text

/-- The elements between two cuts. -/
@[simp]
theorem between_append {α : Type} (front middle back : List α) :
    between (front ++ (middle ++ back)) front.length (front.length + middle.length : Nat) =
      middle := by
  have hfirst : boundary (front ++ (middle ++ back)).length front.length = front.length := by
    simp [boundary]
  have hlast : boundary (front ++ (middle ++ back)).length (front.length + middle.length : Nat) =
      front.length + middle.length := by
    rw [boundary, if_pos (Int.natCast_nonneg _), Int.toNat_natCast]
    simp only [List.length_append]
    omega
  rw [between, hfirst, hlast, List.drop_left, Nat.add_sub_cancel_left, List.take_left]

theorem length_rdropWhile_add {α : Type} (p : α → Bool) (xs : List α) :
    (xs.rdropWhile p).length + (xs.rtakeWhile p).length = xs.length := by
  rw [← List.length_append, List.rdropWhile_append_rtakeWhile]

section FromBehind

variable {α : Type} {p : α → Bool} {back : List α} (hback : ∀ x ∈ back, p x = true)
include hback

theorem rtakeWhile_append_of_pos (front : List α) :
    (front ++ back).rtakeWhile p = front.rtakeWhile p ++ back := by
  rw [List.rtakeWhile, List.reverse_append, List.takeWhile_append_of_pos (by simpa using hback),
    List.reverse_append, List.reverse_reverse, List.rtakeWhile]

theorem rdropWhile_append_of_pos (front : List α) :
    (front ++ back).rdropWhile p = front.rdropWhile p := by
  rw [List.rdropWhile, List.reverse_append, List.dropWhile_append_of_pos (by simpa using hback),
    List.rdropWhile]

end FromBehind

/-- What no line feed may stand in does not reach behind the last one. -/
theorem rtakeWhile_sinceFeed {p : Char → Bool} (hp : p '\n' = false) (cs : List Char) :
    (sinceFeed cs).rtakeWhile p = cs.rtakeWhile p := by
  induction cs using List.reverseRecOn with
  | nil => rfl
  | append_singleton cs c ih =>
      rw [sinceFeed_concat]
      by_cases hc : c = '\n'
      · rw [if_pos hc, hc, List.rtakeWhile_concat, hp, List.rtakeWhile_nil,
          if_neg Bool.false_ne_true]
      · rw [if_neg hc, List.rtakeWhile_concat, List.rtakeWhile_concat, ih]

theorem sinceFeed_append {back : List Char} (hback : '\n' ∉ back) (front : List Char) :
    sinceFeed (front ++ back) = sinceFeed front ++ back := by
  induction back using List.reverseRecOn with
  | nil => simp
  | append_singleton back c ih =>
      have hparts : '\n' ∉ back ∧ '\n' ≠ c := by simpa using hback
      rw [← List.append_assoc, sinceFeed_concat, if_neg hparts.2.symm, ih hparts.1,
        List.append_assoc]

end Text

namespace Document

open Lisplet.Token

/-! ## A line that is cut at the cursor -/

section Cut

variable (before after : List Char)

@[simp]
theorem wordStart_append :
    wordStart (before ++ after) before.length =
      (before.rdropWhile (!endsWord ·)).length := by
  have hsplit := Text.length_rdropWhile_add (!endsWord ·) before
  have hback : (before.reverse.takeWhile (!endsWord ·)).length =
      (before.rtakeWhile (!endsWord ·)).length := List.length_reverse.symm
  have hmin : min (before.length : Int) (before ++ after).length = before.length := by
    rw [List.length_append]
    omega
  rw [wordStart, hmin, Int.toNat_natCast, List.take_left, hback]
  split <;> omega

@[simp]
theorem wordEnd?_append :
    wordEnd? (before ++ after) before.length =
      some ((before.length + (after.takeWhile (!endsWord ·)).length : Nat) : Int) := by
  rw [wordEnd?, if_pos (Int.natCast_nonneg _), Int.toNat_natCast, List.drop_left]
  rfl

/-- The word at a cursor is what reaches up to it and what goes on behind it. -/
theorem wordInLine_append :
    let word := before.rtakeWhile (!endsWord ·) ++ after.takeWhile (!endsWord ·)
    wordInLine (before ++ after) before.length =
      .ok (if word.isEmpty then none else some (String.ofList word),
        (before.rdropWhile (!endsWord ·)).length) := by
  have hbefore : before.rdropWhile (!endsWord ·) ++ before.rtakeWhile (!endsWord ·) = before :=
    List.rdropWhile_append_rtakeWhile
  have hafter : after.takeWhile (!endsWord ·) ++ after.dropWhile (!endsWord ·) = after :=
    List.takeWhile_append_dropWhile
  have hline : before ++ after = before.rdropWhile (!endsWord ·) ++
      ((before.rtakeWhile (!endsWord ·) ++ after.takeWhile (!endsWord ·)) ++
        after.dropWhile (!endsWord ·)) := by
    rw [List.append_assoc, hafter, ← List.append_assoc, hbefore]
  have hstop : before.length + (after.takeWhile (!endsWord ·)).length =
      (before.rdropWhile (!endsWord ·)).length +
        (before.rtakeWhile (!endsWord ·) ++ after.takeWhile (!endsWord ·)).length := by
    rw [List.length_append, ← Nat.add_assoc, Text.length_rdropWhile_add]
  intro word
  rw [wordInLine, wordEnd?_append, wordStart_append]
  dsimp only
  rw [hstop, hline, Text.between_append]

end Cut

/-- A cursor in a line of the document. -/
theorem wordAt_of_getElem? {cs before after : List Char} {line : Nat}
    (hline : (Text.documentLines cs)[line]? = some (before ++ after)) :
    wordAt cs line before.length = wordInLine (before ++ after) before.length := by
  have hlt : line < (Text.documentLines cs).length := (List.getElem?_eq_some_iff.mp hline).1
  have hfew : ¬ ((Text.documentLines cs).length : Int) ≤ line := by omega
  rw [wordAt, if_neg hfew, Text.atEitherEnd?, if_pos (Int.natCast_nonneg _), Int.toNat_natCast,
    hline]

/-! ## Words and blanks -/

/-- A character at which a line ends is a blank. -/
theorem isLineEnd_eq_false {c : Char} (hc : Text.isBlank c = false) :
    Text.isLineEnd c = false := by
  by_contra hends
  simp only [Text.isLineEnd, Bool.not_eq_false, Bool.or_eq_true, beq_iff_eq] at hends
  rcases hends with ((((((((rfl | rfl) | rfl) | rfl) | rfl) | rfl) | rfl) | rfl) | rfl) | rfl <;>
    revert hc <;> decide

theorem endsWord_of_isInner {c : Char} (hc : isInner c = true) : endsWord c = false := by
  by_contra hends
  simp only [endsWord, Bool.not_eq_false, Bool.or_eq_true, beq_iff_eq] at hends
  rcases hends with ((((rfl | rfl) | rfl) | rfl) | rfl) | rfl <;> revert hc <;> decide

theorem rtakeWhile_eq_nil_iff_getLast? {p : Char → Bool} {cs : List Char} :
    cs.rtakeWhile p = [] ↔ ∀ c ∈ cs.getLast?, p c = false := by
  induction cs using List.reverseRecOn with
  | nil => simp
  | append_singleton cs c ih => cases hc : p c <;> simp [hc]

theorem takeWhile_eq_nil_iff_head? {p : Char → Bool} {cs : List Char} :
    cs.takeWhile p = [] ↔ ∀ c ∈ cs.head?, p c = false := by
  cases cs with
  | nil => simp
  | cons c cs => cases hc : p c <;> simp [hc]

/-! ## Lexemes under the cursor -/

/-- The line of a text in which a cursor stands in a part of it. -/
theorem exists_wordAt {front text : List Char} (hfront : Text.PlainLineEnds front)
    (hne : text ≠ []) (htext : ∀ c ∈ text, Text.isLineEnd c = false) (back : List Char) {k : Nat}
    (hk : k ≤ text.length) :
    ∃ onward : List Char, onward.head? = back.head? ∧
      let before := Text.sinceFeed front ++ text.take k
      wordAt (front ++ (text ++ back)) (front.count '\n')
          ((Text.sinceFeed front).length + k : Nat) =
        wordInLine (before ++ (text.drop k ++ onward)) before.length := by
  obtain ⟨onward, hline, honward⟩ := Text.exists_getElem?_documentLines hfront hne htext back
  have hcut : Text.sinceFeed front ++ (text ++ onward) =
      (Text.sinceFeed front ++ text.take k) ++ (text.drop k ++ onward) := by
    rw [List.append_assoc, ← List.append_assoc (text.take k), List.take_append_drop]
  have hcolumn : (Text.sinceFeed front).length + k =
      (Text.sinceFeed front ++ text.take k).length := by
    rw [List.length_append, List.length_take, Nat.min_eq_left hk]
  rw [hcut] at hline
  refine ⟨onward, honward, ?_⟩
  rw [hcolumn]
  exact wordAt_of_getElem? hline

/-- The word at a cursor in a word of the text: what reaches up to the word, the word, and
what goes on behind it. -/
theorem exists_wordAt_solid {front text : List Char} (hfront : Text.PlainLineEnds front)
    (htext : Solid text) (back : List Char) {k : Nat} (hk : k ≤ text.length) :
    ∃ onward : List Char, onward.head? = back.head? ∧
      wordAt (front ++ (text ++ back)) (front.count '\n')
          ((Text.sinceFeed front).length + k : Nat) =
        .ok (some (String.ofList (front.rtakeWhile (!endsWord ·) ++
            (text ++ onward.takeWhile (!endsWord ·)))),
          ((Text.sinceFeed front).rdropWhile (!endsWord ·)).length) := by
  have hends : ∀ c ∈ text, Text.isLineEnd c = false :=
    fun c hc => isLineEnd_eq_false (isInner_eq_true_iff.mp (htext.inner c hc)).1
  have hgoes : ∀ c ∈ text, (!endsWord c) = true := by
    intro c hc
    rw [endsWord_of_isInner (htext.inner c hc)]
    rfl
  obtain ⟨onward, honward, hword⟩ := exists_wordAt hfront htext.ne_nil hends back hk
  have hleft : ∀ c ∈ text.take k, (!endsWord c) = true :=
    fun c hc => hgoes c (List.mem_of_mem_take hc)
  have hright : ∀ c ∈ text.drop k, (!endsWord c) = true :=
    fun c hc => hgoes c (List.mem_of_mem_drop hc)
  refine ⟨onward, honward, ?_⟩
  rw [hword, wordInLine_append, Text.rtakeWhile_append_of_pos hleft,
    Text.rdropWhile_append_of_pos hleft, Text.rtakeWhile_sinceFeed (by decide),
    List.takeWhile_append_of_pos hright, List.append_assoc, ← List.append_assoc (text.take k),
    List.take_append_drop, if_neg]
  simp [htext.ne_nil]

namespace Lexeme

/-- The characters next to a lexeme, if there are any, end a word at a cursor. -/
structure StandsFree (cs : List Char) (l : Lexeme) : Prop where
  before : ∀ c ∈ (cs.take l.place.offset).getLast?, endsWord c = true
  after : ∀ c ∈ (cs.drop (l.place.offset + l.token.length)).head?, endsWord c = true

instance decidableStandsFree (cs : List Char) (l : Lexeme) : Decidable (l.StandsFree cs) :=
  have := Option.decidableForallMem (p := fun c => endsWord c = true)
    (cs.take l.place.offset).getLast?
  have := Option.decidableForallMem (p := fun c => endsWord c = true)
    (cs.drop (l.place.offset + l.token.length)).head?
  decidable_of_iff (_ ∧ _) ⟨fun h => ⟨h.1, h.2⟩, fun h => ⟨h.before, h.after⟩⟩

variable {cs : List Char} {l : Lexeme}

/-- How a document is cut at a lexeme. -/
theorem exists_cut (hl : l ∈ scan cs) :
    ∃ front back, cs = front ++ (l.token.toList ++ back) ∧ l.token.toList ≠ [] ∧
      l.place = ⟨front.length, front.count '\n', (Text.sinceFeed front).length⟩ ∧
      cs.take l.place.offset = front ∧ cs.drop (l.place.offset + l.token.length) = back := by
  obtain ⟨front, back, hcs, hplace, hne⟩ := (tiles_scan cs).exists_eq_append hl
  rw [Place.foldl_after_start] at hplace
  refine ⟨front, back, hcs, hne, hplace, ?_, ?_⟩
  · rw [hplace, hcs, List.take_left]
  · rw [hplace, hcs, ← String.length_toList, ← List.drop_drop, List.drop_left, List.drop_left]

theorem solid_token (hl : l ∈ scan cs) (hword : l.token ≠ opening ∧ l.token ≠ closing) :
    Solid l.token.toList := by
  rcases (tiles_scan cs).paren_or_solid hl with (htoken | htoken) | hsolid
  · exact absurd htoken hword.1
  · exact absurd htoken hword.2
  · exact hsolid

section Words

variable (hl : l ∈ scan cs) (hword : l.token ≠ opening ∧ l.token ≠ closing)
  (hlines : Text.PlainLineEnds (cs.take l.place.offset))
include hl hword hlines

/-- The word at a cursor in a word of the document. -/
theorem exists_wordAt {c : Nat} (hfrom : l.place.column ≤ c)
    (hto : c ≤ l.place.column + l.token.length) :
    ∃ onward : List Char,
      onward.head? = (cs.drop (l.place.offset + l.token.length)).head? ∧
      wordAt cs l.place.line c =
        .ok (some (String.ofList ((cs.take l.place.offset).rtakeWhile (!endsWord ·) ++
            (l.token.toList ++ onward.takeWhile (!endsWord ·)))),
          (((Text.sinceFeed (cs.take l.place.offset)).rdropWhile (!endsWord ·)).length : Nat)) := by
  obtain ⟨front, back, hcs, -, hplace, hfront, hback⟩ := exists_cut hl
  obtain ⟨k, rfl⟩ := Nat.exists_eq_add_of_le hfrom
  have hk : k ≤ l.token.toList.length := by
    rw [String.length_toList]
    omega
  rw [hfront] at hlines
  rw [hfront, hback, hplace, hcs]
  exact exists_wordAt_solid hlines (solid_token hl hword) back hk

theorem wordAt_of_standsFree (hfree : l.StandsFree cs) {c : Nat} (hfrom : l.place.column ≤ c)
    (hto : c ≤ l.place.column + l.token.length) :
    wordAt cs l.place.line c = .ok (some l.token, l.place.column) := by
  obtain ⟨onward, honward, hat⟩ := exists_wordAt hl hword hlines hfrom hto
  obtain ⟨front, -, -, -, hplace, hfront, -⟩ := exists_cut hl
  have hleft : (cs.take l.place.offset).rtakeWhile (!endsWord ·) = [] :=
    rtakeWhile_eq_nil_iff_getLast?.mpr (by simpa using hfree.before)
  have hright : onward.takeWhile (!endsWord ·) = [] := by
    rw [takeWhile_eq_nil_iff_head?, honward]
    simpa using hfree.after
  have hstart := Text.length_rdropWhile_add (!endsWord ·) (Text.sinceFeed (cs.take l.place.offset))
  have hcolumn : l.place.column = (Text.sinceFeed front).length := by rw [hplace]
  rw [Text.rtakeWhile_sinceFeed (by decide), hleft, hfront, List.length_nil, Nat.add_zero,
    ← hcolumn] at hstart
  rw [hat, hleft, hright, hfront, hstart]
  simp

theorem standsFree_of_wordAt {start : Int}
    (hat : wordAt cs l.place.line l.place.column = .ok (some l.token, start)) :
    l.StandsFree cs := by
  obtain ⟨onward, honward, hword⟩ :=
    exists_wordAt hl hword hlines (Nat.le_refl _) (Nat.le_add_right ..)
  simp only [hat, Except.ok.injEq, Prod.mk.injEq, Option.some.injEq] at hword
  have hlength := congrArg (List.length ∘ String.toList) hword.1
  simp only [Function.comp_apply, String.toList_ofList, List.length_append] at hlength
  have hleft : (cs.take l.place.offset).rtakeWhile (!endsWord ·) = [] :=
    List.length_eq_zero_iff.mp (by omega)
  have hright : onward.takeWhile (!endsWord ·) = [] := List.length_eq_zero_iff.mp (by omega)
  rw [takeWhile_eq_nil_iff_head?, honward] at hright
  exact ⟨by simpa using rtakeWhile_eq_nil_iff_getLast?.mp hleft, by simpa using hright⟩

/-- The word at every cursor in a lexeme, its two ends among them, is the lexeme exactly if
the characters next to it end a word.  (A blank such as the no-break space does not.) -/
theorem wordAt_eq_iff :
    (∀ c : Nat, l.place.column ≤ c → c ≤ l.place.column + l.token.length →
        wordAt cs l.place.line c = .ok (some l.token, l.place.column)) ↔
      l.StandsFree cs := by
  constructor
  · intro hat
    exact standsFree_of_wordAt hl hword hlines
      (hat l.place.column (Nat.le_refl _) (Nat.le_add_right ..))
  · intro hfree c hfrom hto
    exact wordAt_of_standsFree hl hword hlines hfree hfrom hto

end Words

/-- A word behind a line that ends with a carriage return and a line feed is found at its
cursors.  A no-break space parts two words, but not for the cursor. -/
theorem wordAt_eq_iff_noBreakSpace :
    let cs := "(f\r\n\txs y\u00a0z)".toList
    Text.PlainLineEnds cs ∧
      (⟨"xs", 5, 1, 1⟩ ∈ scan cs ∧ ∀ c : Nat, 1 ≤ c → c ≤ 3 →
        wordAt cs 1 c = .ok (some "xs", 1)) ∧
      ⟨"y", 8, 1, 4⟩ ∈ scan cs ∧ ¬ ∀ c : Nat, 4 ≤ c → c ≤ 5 →
        wordAt cs 1 c = .ok (some "y", 4) := by
  intro cs
  have hlines : Text.PlainLineEnds cs := by decide
  have hfree : (⟨"xs", 5, 1, 1⟩ : Lexeme) ∈ scan cs := by decide +kernel
  have hbound : (⟨"y", 8, 1, 4⟩ : Lexeme) ∈ scan cs := by decide +kernel
  refine ⟨hlines, ⟨hfree, ?_⟩, hbound, fun hall => ?_⟩
  · exact (wordAt_eq_iff hfree (by decide) (by decide)).mpr (by decide +kernel)
  · have hstands := (wordAt_eq_iff hbound (by decide) (by decide)).mp hall
    exact absurd (hstands.after '\u00a0' (by decide)) (by decide)

end Lexeme

end Document

end Lisplet
