import Lisplet.Document.Lexeme
import Lisplet.Proofs.Reading.Splitting

/-!
# Lexemes and tokens

A text is laid out with its lexemes: blanks lie between them, a parenthesis is one, and
so is a run of other characters that goes on as far as it can.  The scan with places
lays a document out in this way, and so does the splitting of a source text, so that
both give the same tokens.
-/

namespace Lisplet.Document

open Lisplet.Token

/-- A text from a place on is laid out with these lexemes. -/
inductive Tiles : Place → List Char → List Lexeme → Prop where
  | nil {place : Place} : Tiles place [] []
  | blank {place : Place} {c : Char} {cs : List Char} {later : List Lexeme} :
      Text.isBlank c = true → Tiles (place.after c) cs later → Tiles place (c :: cs) later
  | paren {place : Place} {c : Char} {cs : List Char} {later : List Lexeme} :
      c = '(' ∨ c = ')' → Tiles (place.after c) cs later →
      Tiles place (c :: cs) (⟨String.singleton c, place⟩ :: later)
  | word {place : Place} {word rest : List Char} {later : List Lexeme} :
      Solid word → StartsApart rest → Tiles (word.foldl Place.after place) rest later →
      Tiles place (word ++ rest) (⟨String.ofList word, place⟩ :: later)

/-- The lexemes of a layout are the tokens of the text. -/
theorem Tiles.map_token {place : Place} {cs : List Char} {lexemes : List Lexeme}
    (h : Tiles place cs lexemes) : lexemes.map Lexeme.token = Token.split cs := by
  induction h with
  | nil => rfl
  | blank hc _ ih => rw [ih, split_blank _ hc]
  | paren hc _ ih =>
      rcases hc with rfl | rfl
      · rw [List.map_cons, ih, split_opening]
        rfl
      · rw [List.map_cons, ih, split_closing]
        rfl
  | word hword hrest _ ih => rw [List.map_cons, ih, split_solid_append hword hrest]

/-- The word that is carried along ends where the text does not go on with it. -/
theorem tiles_finish {place start : Place} {current cs : List Char} {later : List Lexeme}
    (hcurrent : ∀ c ∈ current, isInner c = true)
    (hplace : place = current.reverse.foldl Place.after start) (hcs : StartsApart cs)
    (hlater : Tiles place cs later) :
    Tiles start (current.reverse ++ cs) (Lexeme.scanFrom.finish start current later) := by
  subst hplace
  rw [Lexeme.scanFrom.finish]
  split
  · next hempty =>
      obtain rfl := List.isEmpty_iff.mp hempty
      exact hlater
  · next hne =>
      have hsolid : Solid current.reverse :=
        ⟨by simpa using hne, fun c hc => hcurrent c (List.mem_reverse.mp hc)⟩
      exact .word hsolid hcs hlater

/-- Scanning on with a word lays out the word and the rest of the text from where the
word starts. -/
theorem tiles_scanFrom (cs : List Char) {place start : Place} {current : List Char}
    (hcurrent : ∀ c ∈ current, isInner c = true)
    (hplace : place = current.reverse.foldl Place.after start) :
    Tiles start (current.reverse ++ cs) (Lexeme.scanFrom place start current cs) := by
  induction cs generalizing place start current with
  | nil => exact tiles_finish hcurrent hplace startsApart_nil .nil
  | cons c cs ih =>
      have hnone : ∀ d ∈ ([] : List Char), isInner d = true := by simp
      have hnext : Tiles (place.after c) cs
          (Lexeme.scanFrom (place.after c) (place.after c) [] cs) := ih hnone rfl
      rw [Lexeme.scanFrom]
      by_cases hblank : Text.isBlank c = true
      · rw [if_pos hblank]
        exact tiles_finish hcurrent hplace (startsApart_cons (by simp [isInner, hblank]))
          (.blank hblank hnext)
      · rw [if_neg hblank]
        by_cases hparen : c = '(' ∨ c = ')'
        · rw [if_pos (by simpa using hparen)]
          have hends : isInner c = false := by rcases hparen with rfl | rfl <;> decide
          exact tiles_finish hcurrent hplace (startsApart_cons hends) (.paren hparen hnext)
        · have hinner : isInner c = true := by
            simp only [isInner]
            simp_all
          have hstart : (if current.isEmpty then place else start) = start := by
            split
            · next hempty =>
                rw [hplace, List.isEmpty_iff.mp hempty]
                rfl
            · rfl
          have hall : ∀ d ∈ c :: current, isInner d = true :=
            List.forall_mem_cons.mpr ⟨hinner, hcurrent⟩
          have hafter : place.after c = (c :: current).reverse.foldl Place.after start := by
            rw [List.reverse_cons, List.foldl_append, ← hplace]
            rfl
          have hword := ih hall hafter
          rw [List.reverse_cons, List.append_assoc, List.singleton_append] at hword
          rw [if_neg (by simpa using hparen), hstart]
          exact hword

/-- The scan lays out a document. -/
theorem tiles_scan (cs : List Char) : Tiles Place.start cs (Lexeme.scan cs) := by
  have hnone : ∀ c ∈ ([] : List Char), isInner c = true := by simp
  exact tiles_scanFrom cs hnone rfl

/-- The tokens of a document are the tokens of its text. -/
@[simp]
theorem map_token_scan (cs : List Char) : (Lexeme.scan cs).map Lexeme.token = Token.split cs :=
  (tiles_scan cs).map_token

end Lisplet.Document
