import Mathlib.Data.List.Pairwise
import Lisplet.Proofs.Document.Lexemes
import Lisplet.Proofs.Text.Pattern

/-!
# Lexemes cover a document

The lexemes of a document are what a search for parentheses and for runs of other
characters finds, and their tokens are those that the text is split into.  They stand in
the document where their places say, one behind the other, and every character that is
no blank lies in exactly one of them.
-/

namespace Lisplet.Document

open Lisplet.Token Text

theorem firstRest?_tokenPattern_blank {c : Char} (cs : List Char) (hc : isBlank c = true) :
    tokenPattern.firstRest? (c :: cs) = none := by
  have hinner : isInner c = false := by simp [isInner, hc]
  have hparen : (c == '(' || c == ')') = false := by
    rw [Bool.or_eq_false_iff, beq_eq_false_iff_ne, beq_eq_false_iff_ne]
    constructor <;> (rintro rfl; revert hc; decide)
  simp [tokenPattern, Pattern.firstRest?, Pattern.rests, hinner, hparen]

theorem firstRest?_tokenPattern_paren {c : Char} (cs : List Char) (hc : c = '(' ∨ c = ')') :
    tokenPattern.firstRest? (c :: cs) = some cs := by
  have hparen : (c == '(' || c == ')') = true := by simpa using hc
  simp [tokenPattern, Pattern.firstRest?, Pattern.rests, hparen]

theorem firstRest?_tokenPattern_word {word rest : List Char} (hword : Solid word)
    (hrest : StartsApart rest) : tokenPattern.firstRest? (word ++ rest) = some rest := by
  obtain ⟨c, word, rfl⟩ := List.exists_cons_of_ne_nil hword.ne_nil
  obtain ⟨hc, hinner⟩ := List.forall_mem_cons.mp hword.inner
  have hparen : (c == '(' || c == ')') = false := by
    obtain ⟨-, hopening, hclosing⟩ := isInner_eq_true_iff.mp hc
    simp [hopening, hclosing]
  have hdrop : (word ++ rest).dropWhile isInner = rest := by
    rw [List.dropWhile_append_of_pos hinner]
    cases rest with
    | nil => rfl
    | cons d rest =>
        have hd : isInner d = false := hrest d rfl
        rw [List.dropWhile_cons, hd, if_neg Bool.false_ne_true]
  simp [tokenPattern, Pattern.firstRest?, Pattern.rests, hparen, hc,
    Pattern.head?_restsOfMany, hdrop]

@[simp]
theorem Place.offset_after (place : Place) (c : Char) :
    (place.after c).offset = place.offset + 1 := by
  rw [Place.after]
  split <;> rfl

theorem Place.offset_after_add (place : Place) (c : Char) (i : Nat) :
    (place.after c).offset + i = place.offset + (i + 1) := by
  rw [Place.offset_after, Nat.add_assoc, Nat.add_comm 1]

@[simp]
theorem Place.offset_foldl_after (place : Place) (cs : List Char) :
    (cs.foldl Place.after place).offset = place.offset + cs.length := by
  induction cs generalizing place with
  | nil => rfl
  | cons c cs ih =>
      rw [List.foldl_cons, ih, Place.offset_after, List.length_cons]
      omega

namespace Lexeme

def span (l : Lexeme) : Nat × List Char := (l.place.offset, l.token.toList)

def Covers (l : Lexeme) (offset : Nat) : Prop :=
  l.place.offset ≤ offset ∧ offset < l.place.offset + l.token.length

end Lexeme

namespace Tiles

variable {place : Place} {cs : List Char} {lexemes : List Lexeme}

/-- The lexemes of a layout are what the search finds. -/
theorem map_span (h : Tiles place cs lexemes) :
    lexemes.map Lexeme.span = tokenPattern.findAll place.offset cs := by
  induction h with
  | nil => rw [List.map_nil, Pattern.findAll_nil]
  | @blank place c cs later hc _ ih =>
      rw [ih, Place.offset_after, Pattern.findAll_of_none (firstRest?_tokenPattern_blank cs hc)]
  | @paren place c cs later hc _ ih =>
      have hfound := Pattern.findAll_append (List.cons_ne_nil c [])
        (firstRest?_tokenPattern_paren cs hc) place.offset
      rw [List.map_cons, ih, Place.offset_after]
      simpa [Lexeme.span] using hfound.symm
  | @word place word rest later hword hrest _ ih =>
      have hfound := Pattern.findAll_append hword.ne_nil
        (firstRest?_tokenPattern_word hword hrest) place.offset
      rw [List.map_cons, ih, Place.offset_foldl_after, hfound]
      simp [Lexeme.span]

/-- A lexeme stands in the text where its place says. -/
theorem exists_eq_append (h : Tiles place cs lexemes) {l : Lexeme} (hl : l ∈ lexemes) :
    ∃ front back, cs = front ++ (l.token.toList ++ back) ∧
      l.place = front.foldl Place.after place ∧ l.token.toList ≠ [] := by
  induction h with
  | nil => cases hl
  | @blank place c cs later hc _ ih =>
      obtain ⟨front, back, rfl, hplace, hne⟩ := ih hl
      exact ⟨c :: front, back, rfl, hplace, hne⟩
  | @paren place c cs later hc _ ih =>
      rcases List.mem_cons.mp hl with rfl | hl
      · exact ⟨[], cs, by simp, rfl, by simp⟩
      · obtain ⟨front, back, rfl, hplace, hne⟩ := ih hl
        exact ⟨c :: front, back, rfl, hplace, hne⟩
  | @word place word rest later hword hrest _ ih =>
      rcases List.mem_cons.mp hl with rfl | hl
      · exact ⟨[], rest, by simp, rfl, by simpa using hword.ne_nil⟩
      · obtain ⟨front, back, rfl, hplace, hne⟩ := ih hl
        refine ⟨word ++ front, back, (List.append_assoc ..).symm, ?_, hne⟩
        rw [List.foldl_append, hplace]

theorem offset_le (h : Tiles place cs lexemes) {l : Lexeme} (hl : l ∈ lexemes) :
    place.offset ≤ l.place.offset := by
  obtain ⟨front, back, -, hplace, -⟩ := h.exists_eq_append hl
  rw [hplace, Place.offset_foldl_after]
  exact Nat.le_add_right ..

/-- A lexeme ends before the next one starts. -/
theorem pairwise (h : Tiles place cs lexemes) :
    lexemes.Pairwise fun l later => l.place.offset + l.token.length ≤ later.place.offset := by
  induction h with
  | nil => exact .nil
  | blank _ _ ih => exact ih
  | paren _ hrest ih =>
      refine .cons (fun l hl => ?_) ih
      have hle := hrest.offset_le hl
      rw [Place.offset_after] at hle
      simpa using hle
  | word _ _ hrest ih =>
      refine .cons (fun l hl => ?_) ih
      have hle := hrest.offset_le hl
      rw [Place.offset_foldl_after] at hle
      simpa using hle

/-- A character that is no blank lies in a lexeme, in which it is alone if it is a
parenthesis. -/
theorem exists_covers (h : Tiles place cs lexemes) {i : Nat} {c : Char} (hi : cs[i]? = some c)
    (hc : isBlank c = false) :
    ∃ l ∈ lexemes, l.Covers (place.offset + i) ∧
      (isInner c = false → l.token = String.singleton c) := by
  induction h generalizing i with
  | nil => cases hi
  | @blank place d cs later hd _ ih =>
      cases i with
      | zero =>
          obtain rfl : d = c := by simpa using hi
          rw [hc] at hd
          cases hd
      | succ i =>
          rw [← Place.offset_after_add place d]
          exact ih (by simpa using hi)
  | @paren place d cs later hd _ ih =>
      cases i with
      | zero =>
          obtain rfl : d = c := by simpa using hi
          exact ⟨_, List.mem_cons_self, ⟨Nat.le_refl _, by simp⟩, fun _ => rfl⟩
      | succ i =>
          obtain ⟨l, hl, hcovers⟩ := ih (by simpa using hi)
          rw [Place.offset_after_add] at hcovers
          exact ⟨l, List.mem_cons_of_mem _ hl, hcovers⟩
  | @word place word rest later hword _ _ ih =>
      rcases Nat.lt_or_ge i word.length with hin | hout
      · rw [List.getElem?_append_left hin] at hi
        refine ⟨_, List.mem_cons_self, ⟨Nat.le_add_right .., by simpa using hin⟩, fun hends => ?_⟩
        rw [hword.inner c (List.mem_of_getElem? hi)] at hends
        cases hends
      · rw [List.getElem?_append_right hout] at hi
        obtain ⟨l, hl, hcovers⟩ := ih hi
        rw [Place.offset_foldl_after, Nat.add_assoc, Nat.add_sub_cancel' hout] at hcovers
        exact ⟨l, List.mem_cons_of_mem _ hl, hcovers⟩

/-- Two characters of words that stand side by side lie in one lexeme. -/
theorem exists_covers_both (h : Tiles place cs lexemes) {i : Nat} {c d : Char}
    (hi : cs[i]? = some c) (hnext : cs[i + 1]? = some d) (hc : isInner c = true)
    (hd : isInner d = true) :
    ∃ l ∈ lexemes, l.Covers (place.offset + i) ∧ l.Covers (place.offset + i + 1) := by
  induction h generalizing i with
  | nil => cases hi
  | @blank place e cs later he _ ih =>
      cases i with
      | zero =>
          obtain rfl : e = c := by simpa using hi
          rw [(isInner_eq_true_iff.mp hc).1] at he
          cases he
      | succ i =>
          rw [← Place.offset_after_add place e]
          exact ih (by simpa using hi) (by simpa using hnext)
  | @paren place e cs later he _ ih =>
      cases i with
      | zero =>
          obtain rfl : e = c := by simpa using hi
          obtain ⟨-, hopening, hclosing⟩ := isInner_eq_true_iff.mp hc
          exact absurd he (by simp [hopening, hclosing])
      | succ i =>
          obtain ⟨l, hl, hcovers⟩ := ih (by simpa using hi) (by simpa using hnext)
          rw [Place.offset_after_add] at hcovers
          exact ⟨l, List.mem_cons_of_mem _ hl, hcovers⟩
  | @word place word rest later hword hrest _ ih =>
      rcases Nat.lt_trichotomy (i + 1) word.length with hin | hend | hout
      · refine ⟨_, List.mem_cons_self, ?_⟩
        simp only [Lexeme.Covers, String.length_ofList]
        omega
      · -- the word ends here because what follows does not stand in a word
        rw [List.getElem?_append_right (Nat.le_of_eq hend.symm), hend, Nat.sub_self] at hnext
        rw [hrest d (by rwa [List.head?_eq_getElem?])] at hd
        cases hd
      · rw [List.getElem?_append_right (by omega)] at hi hnext
        rw [Nat.sub_add_comm (by omega)] at hnext
        obtain ⟨l, hl, hcovers⟩ := ih hi hnext
        rw [Place.offset_foldl_after, Nat.add_assoc, Nat.add_sub_cancel' (by omega)] at hcovers
        exact ⟨l, List.mem_cons_of_mem _ hl, hcovers⟩

/-- No character lies in two lexemes. -/
theorem eq_of_covers (h : Tiles place cs lexemes) {l other : Lexeme} (hl : l ∈ lexemes)
    (hother : other ∈ lexemes) {offset : Nat} (hcovers : l.Covers offset)
    (hcovers' : other.Covers offset) : l = other := by
  have hapart : lexemes.Pairwise fun a b => ¬ (a.Covers offset ∧ b.Covers offset) := by
    refine h.pairwise.imp fun {a b} hle hboth => ?_
    obtain ⟨⟨-, hend⟩, hstart, -⟩ := hboth
    omega
  have hsymm : Std.Symm fun a b : Lexeme => ¬ (a.Covers offset ∧ b.Covers offset) :=
    ⟨fun _ _ hab hba => hab hba.symm⟩
  by_contra hne
  exact hapart.forall hl hother hne ⟨hcovers, hcovers'⟩

/-- A lexeme does not end between two characters of words. -/
theorem covers_succ_iff (h : Tiles place cs lexemes) {l : Lexeme} (hl : l ∈ lexemes) {i : Nat}
    {c d : Char} (hi : cs[i]? = some c) (hnext : cs[i + 1]? = some d) (hc : isInner c = true)
    (hd : isInner d = true) :
    l.Covers (place.offset + i) ↔ l.Covers (place.offset + i + 1) := by
  obtain ⟨other, hother, hcovers, hcovers'⟩ := h.exists_covers_both hi hnext hc hd
  constructor
  · intro hfirst
    rwa [h.eq_of_covers hl hother hfirst hcovers]
  · intro hsecond
    rwa [h.eq_of_covers hl hother hsecond hcovers']

end Tiles

/-- The lexemes cover a document: each is the part of the text at its place, they stand
one behind the other, every character that is no blank lies in exactly one of them, a
parenthesis alone, and words are not cut. -/
structure Coverage (cs : List Char) (lexemes : List Lexeme) : Prop where
  standing : ∀ l ∈ lexemes, l.token.toList ≠ [] ∧
    l.token.toList = (cs.drop l.place.offset).take l.token.length ∧
    l.place = Place.ofOffset cs l.place.offset
  increasing : lexemes.Pairwise fun l later => l.place.offset < later.place.offset
  apart : lexemes.Pairwise fun l later =>
    l.place.offset + l.token.length ≤ later.place.offset
  covered : ∀ (i : Nat) (c : Char), cs[i]? = some c → isBlank c = false →
    ∃! l, l ∈ lexemes ∧ l.Covers i
  alone : ∀ (i : Nat) (c : Char), cs[i]? = some c → c = '(' ∨ c = ')' →
    ∃ l ∈ lexemes, l.Covers i ∧ l.token = String.singleton c
  whole : ∀ (i : Nat) (c d : Char), cs[i]? = some c → cs[i + 1]? = some d →
    isInner c = true → isInner d = true → ∀ l ∈ lexemes, l.Covers i ↔ l.Covers (i + 1)

/-- Splitting a text, searching it and scanning it agree, and what they find covers the
text. -/
theorem scan_agrees_and_covers (cs : List Char) :
    (Lexeme.scan cs).map Lexeme.token = Token.split cs ∧
      (Lexeme.scan cs).map Lexeme.span = tokenPattern.findAll 0 cs ∧
      Coverage cs (Lexeme.scan cs) := by
  have htiles := tiles_scan cs
  have hstart (i : Nat) : Place.start.offset + i = i := Nat.zero_add i
  have hstanding (l : Lexeme) (hl : l ∈ Lexeme.scan cs) : l.token.toList ≠ [] ∧
      l.token.toList = (cs.drop l.place.offset).take l.token.length ∧
      l.place = Place.ofOffset cs l.place.offset := by
    obtain ⟨front, back, rfl, hplace, hne⟩ := htiles.exists_eq_append hl
    have hoffset : l.place.offset = front.length := by
      rw [hplace, Place.offset_foldl_after, hstart]
    refine ⟨hne, ?_, ?_⟩
    · rw [hoffset, List.drop_left, ← String.length_toList, List.take_left]
    · rw [hoffset, Place.ofOffset, List.take_left, hplace]
  refine ⟨htiles.map_token, htiles.map_span, ⟨hstanding, ?_, htiles.pairwise, ?_, ?_, ?_⟩⟩
  · refine htiles.pairwise.imp_of_mem fun {l later} hl _ hle => ?_
    have hpos := List.length_pos_iff.mpr (hstanding l hl).1
    rw [String.length_toList] at hpos
    omega
  · intro i c hi hc
    obtain ⟨l, hl, hcovers, -⟩ := htiles.exists_covers hi hc
    rw [hstart] at hcovers
    exact ⟨l, ⟨hl, hcovers⟩, fun other hother =>
      htiles.eq_of_covers hother.1 hl hother.2 hcovers⟩
  · intro i c hi hc
    have hparen : isBlank c = false ∧ isInner c = false := by
      rcases hc with rfl | rfl <;> decide
    obtain ⟨l, hl, hcovers, halone⟩ := htiles.exists_covers hi hparen.1
    rw [hstart] at hcovers
    exact ⟨l, hl, hcovers, halone hparen.2⟩
  · intro i c d hi hnext hc hd l hl
    have hiff := htiles.covers_succ_iff hl hi hnext hc hd
    rwa [hstart] at hiff

/-- The last character of a word before a parenthesis. -/
theorem scan_agrees_and_covers_call :
    "(ab)".toList[2]? = some 'b' ∧ isBlank 'b' = false ∧
      ∃! l, l ∈ Lexeme.scan "(ab)".toList ∧ l.Covers 2 := by
  have hchar : "(ab)".toList[2]? = some 'b' := by decide
  have hblank : isBlank 'b' = false := by decide
  exact ⟨hchar, hblank, (scan_agrees_and_covers "(ab)".toList).2.2.covered 2 'b' hchar hblank⟩

end Lisplet.Document
