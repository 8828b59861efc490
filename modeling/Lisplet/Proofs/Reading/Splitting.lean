import Lisplet.Token

/-!
# Splitting a text into tokens

A text is split from its front: blanks are dropped, a parenthesis is a token, and a word
ends where a blank, a parenthesis or the end of the text follows.  These laws are all
that later files use of the way a text is split.
-/

namespace Lisplet.Token

/-- A text that is one word: it is not empty and nothing in it ends a word. -/
structure Solid (text : List Char) : Prop where
  ne_nil : text ≠ []
  inner : ∀ c ∈ text, isInner c = true

theorem Solid.of_all {cs : List Char} (hne : cs ≠ []) (hall : cs.all isInner = true) :
    Solid cs :=
  ⟨hne, List.all_eq_true.mp hall⟩

/-- A text that does not go on with a word that stands directly before it. -/
def StartsApart (rest : List Char) : Prop := ∀ c ∈ rest.head?, isInner c = false

theorem isInner_eq_true_iff {c : Char} :
    isInner c = true ↔ Text.isBlank c = false ∧ c ≠ '(' ∧ c ≠ ')' := by
  simp [isInner, and_assoc]

theorem closing_ne_opening : closing ≠ opening := by decide

theorem startsApart_nil : StartsApart [] := by simp [StartsApart]

theorem startsApart_cons {c : Char} {cs : List Char} (hc : isInner c = false) :
    StartsApart (c :: cs) := by
  simpa [StartsApart] using hc

/-- A word is no parenthesis. -/
theorem Solid.ne_paren {text : List Char} (h : Solid text) :
    String.ofList text ≠ opening ∧ String.ofList text ≠ closing := by
  have hopening : '(' ∉ text := fun hmem => by simpa [isInner] using h.inner _ hmem
  have hclosing : ')' ∉ text := fun hmem => by simpa [isInner] using h.inner _ hmem
  constructor
  · intro heq
    have : text = ['('] := by simpa [opening] using congrArg String.toList heq
    simp [this] at hopening
  · intro heq
    have : text = [')'] := by simpa [closing] using congrArg String.toList heq
    simp [this] at hclosing

theorem setApart_of_inner {c : Char} (hc : isInner c = true) : setApart c = [c] := by
  obtain ⟨-, hopening, hclosing⟩ := isInner_eq_true_iff.mp hc
  simp [setApart, hopening, hclosing]

theorem setApart_of_blank {c : Char} (hc : Text.isBlank c = true) : setApart c = [c] := by
  have hne : c ≠ '(' ∧ c ≠ ')' := by
    constructor <;> (rintro rfl; revert hc; decide)
  simp [setApart, hne.1, hne.2]

/-- What stands apart starts with a blank once the parentheses are set apart. -/
theorem flatMap_setApart_of_startsApart {rest : List Char} (hrest : StartsApart rest) :
    rest = [] ∨ ∃ c cs, rest.flatMap setApart = c :: cs ∧ Text.isBlank c = true := by
  cases rest with
  | nil => exact .inl rfl
  | cons c cs =>
      right
      have hc : isInner c = false := hrest c rfl
      by_cases hparen : c = '(' ∨ c = ')'
      · refine ⟨' ', c :: ' ' :: cs.flatMap setApart, ?_, by decide⟩
        rcases hparen with rfl | rfl <;> rfl
      · have hblank : Text.isBlank c = true := by
          simp only [isInner] at hc
          simp_all
        exact ⟨c, cs.flatMap setApart, by simp_all [setApart], hblank⟩

/-! ## The laws of words -/

theorem go_blank (current : List Char) {c : Char} (cs : List Char) (hc : Text.isBlank c = true) :
    Text.words.go current (c :: cs) = Text.words.finish current (Text.words.go [] cs) := by
  rw [Text.words.go, if_pos hc]

theorem go_inner (current : List Char) {c : Char} (cs : List Char) (hc : Text.isBlank c = false) :
    Text.words.go current (c :: cs) = Text.words.go (c :: current) cs := by
  rw [Text.words.go, if_neg (by simp [hc])]

/-- The characters of a word are kept, last one first. -/
theorem go_flatMap_inner {word : List Char} (hword : ∀ c ∈ word, isInner c = true)
    (current rest : List Char) :
    Text.words.go current ((word ++ rest).flatMap setApart) =
      Text.words.go (word.reverse ++ current) (rest.flatMap setApart) := by
  induction word generalizing current with
  | nil => rfl
  | cons c cs ih =>
      have hc := hword c (List.mem_cons_self ..)
      rw [List.cons_append, List.flatMap_cons, setApart_of_inner hc, List.singleton_append,
        go_inner current _ (isInner_eq_true_iff.mp hc).1,
        ih (fun d hd => hword d (List.mem_cons_of_mem _ hd))]
      simp

/-- A parenthesis ends the current word and is a word of its own. -/
theorem go_paren (current : List Char) {c : Char} (cs : List Char) (hc : c = '(' ∨ c = ')') :
    Text.words.go current (setApart c ++ cs) =
      Text.words.finish current ([c] :: Text.words.go [] cs) := by
  have hblank : Text.isBlank ' ' = true := by decide
  have hparen : setApart c = [' ', c, ' '] ∧ Text.isBlank c = false := by
    rcases hc with rfl | rfl <;> decide
  rw [hparen.1]
  simp only [List.cons_append, List.nil_append]
  rw [go_blank current _ hblank, go_inner [] _ hparen.2, go_blank [c] _ hblank]
  rfl

/-! ## The laws of tokens -/

@[simp]
theorem split_nil : split [] = [] := rfl

theorem split_blank {c : Char} (cs : List Char) (hc : Text.isBlank c = true) :
    split (c :: cs) = split cs := by
  rw [split, List.flatMap_cons, setApart_of_blank hc, List.singleton_append, Text.words,
    go_blank [] _ hc]
  rfl

@[simp]
theorem split_opening (cs : List Char) : split ('(' :: cs) = opening :: split cs := by
  rw [split, List.flatMap_cons, Text.words, go_paren [] _ (.inl rfl)]
  rfl

@[simp]
theorem split_closing (cs : List Char) : split (')' :: cs) = closing :: split cs := by
  rw [split, List.flatMap_cons, Text.words, go_paren [] _ (.inr rfl)]
  rfl

/-- A word that nothing goes on with is the next token. -/
theorem split_solid_append {word rest : List Char} (hword : Solid word)
    (hrest : StartsApart rest) :
    split (word ++ rest) = String.ofList word :: split rest := by
  have hfinish (later : List (List Char)) :
      Text.words.finish (word.reverse ++ []) later = word :: later := by
    simp [Text.words.finish, hword.ne_nil]
  rw [split, Text.words, go_flatMap_inner hword.inner]
  rcases flatMap_setApart_of_startsApart hrest with rfl | ⟨c, cs, hflat, hblank⟩
  · rw [List.flatMap_nil, Text.words.go, hfinish]
    rfl
  · rw [split, hflat, Text.words, go_blank _ _ hblank, go_blank _ _ hblank, hfinish]
    rfl

/-- A blank separates the words before it from those after it. -/
theorem go_append_blank (current front : List Char) {c : Char} (back : List Char)
    (hc : Text.isBlank c = true) :
    Text.words.go current (front ++ c :: back) =
      Text.words.go current front ++ Text.words.go [] back := by
  have hfinish (word : List Char) (earlier later : List (List Char)) :
      Text.words.finish word (earlier ++ later) = Text.words.finish word earlier ++ later := by
    simp only [Text.words.finish]
    split <;> rfl
  induction front generalizing current with
  | nil => rw [List.nil_append, go_blank current back hc, Text.words.go, ← hfinish, List.nil_append]
  | cons d front ih =>
      rw [List.cons_append]
      cases hd : Text.isBlank d with
      | true => rw [go_blank current _ hd, go_blank current _ hd, ih, hfinish]
      | false => rw [go_inner current _ hd, go_inner current _ hd, ih]

theorem split_append_blank (front : List Char) {c : Char} (back : List Char)
    (hc : Text.isBlank c = true) : split (front ++ c :: back) = split front ++ split back := by
  rw [split, List.flatMap_append, List.flatMap_cons, setApart_of_blank hc, List.singleton_append,
    Text.words, go_append_blank [] _ _ hc, List.map_append]
  rfl

/-- A text of blanks has no tokens. -/
theorem split_of_all_blank {cs : List Char} (hblank : cs.all Text.isBlank = true) :
    split cs = [] := by
  induction cs with
  | nil => rfl
  | cons c cs ih =>
      rw [List.all_cons, Bool.and_eq_true] at hblank
      rw [split_blank cs hblank.1, ih hblank.2]

end Lisplet.Token
