import Mathlib.Data.List.Induction
import Lisplet.Proofs.Document.Coverage
import Lisplet.Proofs.Text.Lines

/-!
# Places in the lines of a document

The line and the column of a place are those of the text before it: the line feeds in it,
and the characters behind the last of them.  So a lexeme stands in the lines of the
document where its place says, and places grow along the text, line by line and on each
line from left to right.
-/

namespace Lisplet.Document

open Lisplet.Token

namespace Place

theorem foldl_after_start (cs : List Char) :
    cs.foldl after start = ⟨cs.length, cs.count '\n', (Text.sinceFeed cs).length⟩ := by
  induction cs using List.reverseRecOn with
  | nil => rfl
  | append_singleton cs c ih =>
      rw [List.foldl_append, ih, List.foldl_cons, List.foldl_nil, after, Text.sinceFeed_concat,
        List.count_append]
      by_cases hc : c = '\n' <;> simp [hc]

/-- On the line that a place names, a text stands from its column on. -/
def PointsAt (cs : List Char) (place : Place) (text : List Char) : Prop :=
  ∃ line, (Text.feedLines cs)[place.line]? = some line ∧
    place.column + text.length ≤ line.length ∧
    (line.drop place.column).take text.length = text

theorem pointsAt_foldl_after (front : List Char) {text : List Char} (htext : '\n' ∉ text)
    (back : List Char) : (front.foldl after start).PointsAt (front ++ (text ++ back)) text := by
  have hall : ∀ c ∈ text, (c != '\n') = true := by
    intro c hc
    rw [bne_iff_ne]
    rintro rfl
    exact htext hc
  have hline := Text.getElem?_feedLines front (text ++ back)
  rw [List.takeWhile_append_of_pos hall] at hline
  rw [foldl_after_start]
  refine ⟨_, hline, ?_, ?_⟩
  · simp only [List.length_append]
    omega
  · rw [List.drop_left, List.take_left]

def Before (a b : Place) : Prop := a.line < b.line ∨ a.line = b.line ∧ a.column < b.column

theorem Before.trans {a b c : Place} (hab : a.Before b) (hbc : b.Before c) : a.Before c := by
  simp only [Before] at *
  omega

theorem before_after (place : Place) (c : Char) : place.Before (place.after c) := by
  rw [after]
  split
  · exact .inl (Nat.lt_succ_self _)
  · exact .inr ⟨rfl, Nat.lt_succ_self _⟩

theorem before_foldl_after (place : Place) {cs : List Char} (hne : cs ≠ []) :
    place.Before (cs.foldl after place) := by
  induction cs generalizing place with
  | nil => exact absurd rfl hne
  | cons c cs ih =>
      by_cases hcs : cs = []
      · rw [hcs]
        exact place.before_after c
      · exact (place.before_after c).trans (ih (place.after c) hcs)

theorem le_iff {a b : Place} : a.le b = true ↔ ¬ b.Before a := by
  simp only [le, Before, Bool.or_eq_true, Bool.and_eq_true, decide_eq_true_eq, beq_iff_eq]
  omega

theorem le_trans {a b c : Place} (hab : a.le b = true) (hbc : b.le c = true) : a.le c = true := by
  simp only [le_iff, Before] at *
  omega

theorem le_total (a b : Place) : (a.le b || b.le a) = true := by
  simp only [Bool.or_eq_true, le_iff, Before]
  omega

end Place

namespace Tiles

variable {place : Place} {cs : List Char} {lexemes : List Lexeme} {l : Lexeme}

/-- A lexeme is a parenthesis or a word. -/
theorem paren_or_solid (h : Tiles place cs lexemes) (hl : l ∈ lexemes) :
    (l.token = opening ∨ l.token = closing) ∨ Solid l.token.toList := by
  induction h with
  | nil => cases hl
  | blank _ _ ih => exact ih hl
  | paren hc _ ih =>
      rcases List.mem_cons.mp hl with rfl | hl
      · rcases hc with rfl | rfl
        · exact .inl (.inl rfl)
        · exact .inl (.inr rfl)
      · exact ih hl
  | word hword _ _ ih =>
      rcases List.mem_cons.mp hl with rfl | hl
      · exact .inr (by simpa using hword)
      · exact ih hl

/-- Nothing in a lexeme is blank. -/
theorem isBlank_of_mem_token (h : Tiles place cs lexemes) (hl : l ∈ lexemes) :
    ∀ c ∈ l.token.toList, Text.isBlank c = false := by
  rcases h.paren_or_solid hl with (htoken | htoken) | hsolid
  · rw [htoken]
    exact List.forall_mem_singleton.mpr (by decide)
  · rw [htoken]
    exact List.forall_mem_singleton.mpr (by decide)
  · exact fun c hc => (isInner_eq_true_iff.mp (hsolid.inner c hc)).1

/-- The places of lexemes follow one another. -/
theorem pairwise_before (h : Tiles place cs lexemes) :
    lexemes.Pairwise fun l later => l.place.Before later.place := by
  induction h with
  | nil => exact .nil
  | blank _ _ ih => exact ih
  | @paren place c cs later hc hrest ih =>
      refine .cons (fun l hl => ?_) ih
      obtain ⟨front, back, -, hplace, -⟩ := hrest.exists_eq_append hl
      rw [hplace, ← List.foldl_cons]
      exact place.before_foldl_after (List.cons_ne_nil c front)
  | @word place word rest later hword _ hrest ih =>
      refine .cons (fun l hl => ?_) ih
      obtain ⟨front, back, -, hplace, -⟩ := hrest.exists_eq_append hl
      rw [hplace, ← List.foldl_append]
      exact place.before_foldl_after (List.append_ne_nil_of_left_ne_nil hword.ne_nil front)

end Tiles

namespace Lexeme

variable {cs : List Char} {l other : Lexeme}

/-- A lexeme stands in the lines of the document where its place says. -/
theorem pointsAt_of_mem_scan (hl : l ∈ scan cs) : l.place.PointsAt cs l.token.toList := by
  obtain ⟨front, back, rfl, hplace, -⟩ := (tiles_scan cs).exists_eq_append hl
  have hfeed : '\n' ∉ l.token.toList := by
    intro hmem
    have hblank := (tiles_scan _).isBlank_of_mem_token hl '\n' hmem
    revert hblank
    decide
  rw [hplace]
  exact Place.pointsAt_foldl_after front hfeed back

theorem nodup_scan (cs : List Char) : (scan cs).Nodup := by
  refine (tiles_scan cs).pairwise_before.imp fun {l later} hbefore => ?_
  rintro rfl
  simp only [Place.Before] at hbefore
  omega

/-- Of two lexemes, one comes before the other. -/
theorem before_or_before (hl : l ∈ scan cs) (hother : other ∈ scan cs) (hne : l ≠ other) :
    l.place.Before other.place ∨ other.place.Before l.place := by
  have heither : (scan cs).Pairwise fun a b => a.place.Before b.place ∨ b.place.Before a.place :=
    (tiles_scan cs).pairwise_before.imp Or.inl
  have hsymm : Std.Symm fun a b : Lexeme => a.place.Before b.place ∨ b.place.Before a.place :=
    ⟨fun _ _ => Or.symm⟩
  exact heither.forall hl hother hne

end Lexeme

end Lisplet.Document
