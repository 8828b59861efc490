import Lisplet.Token

/-!
# Trimming blanks

To trim a text is to take it out of the blanks around it: a text without blanks is found
again between any blanks, and only blanks are taken away.
-/

namespace Lisplet.Text

def AllBlank (cs : List Char) : Prop := ∀ c ∈ cs, isBlank c = true

instance (cs : List Char) : Decidable (AllBlank cs) :=
  decidable_of_iff (cs.all isBlank = true) List.all_eq_true

@[simp]
theorem isAllBlank_iff {text : String} : isAllBlank text = true ↔ AllBlank text.toList :=
  List.all_eq_true

theorem allBlank_takeWhile (cs : List Char) : AllBlank (cs.takeWhile isBlank) :=
  List.all_eq_true.mp List.all_takeWhile

theorem AllBlank.reverse {cs : List Char} (h : AllBlank cs) : AllBlank cs.reverse :=
  fun c hc => h c (List.mem_reverse.mp hc)

theorem dropWhile_isBlank_append {front rest : List Char} (hfront : AllBlank front)
    (hrest : ∀ c ∈ rest.head?, isBlank c = false) : (front ++ rest).dropWhile isBlank = rest := by
  rw [List.dropWhile_append_of_pos hfront]
  cases rest with
  | nil => rfl
  | cons c rest => rw [List.dropWhile_cons, hrest c rfl, if_neg Bool.false_ne_true]

/-- A text without blanks is found between any blanks. -/
theorem trimBlanks_append {front cs back : List Char} (hfront : AllBlank front)
    (hcs : ∀ c ∈ cs, isBlank c = false) (hback : AllBlank back) :
    trimBlanks (front ++ (cs ++ back)) = cs := by
  cases cs with
  | nil =>
      have hnone : (front ++ back ++ []).dropWhile isBlank = [] :=
        dropWhile_isBlank_append (List.forall_mem_append.mpr ⟨hfront, hback⟩) nofun
      rw [List.append_nil] at hnone
      rw [trimBlanks, List.nil_append, hnone]
      rfl
  | cons c cs =>
      have hfirst : (front ++ (c :: cs ++ back)).dropWhile isBlank = c :: cs ++ back :=
        dropWhile_isBlank_append hfront fun d hd =>
          hcs d (Option.some.inj hd ▸ List.mem_cons_self ..)
      have hlast : (back.reverse ++ (c :: cs).reverse).dropWhile isBlank = (c :: cs).reverse :=
        dropWhile_isBlank_append hback.reverse fun d hd =>
          hcs d (List.mem_reverse.mp (List.mem_of_mem_head? hd))
      rw [trimBlanks, hfirst, List.reverse_append, hlast, List.reverse_reverse]

/-- Only blanks are taken away. -/
theorem exists_append_trimBlanks (cs : List Char) :
    ∃ front back, cs = front ++ (trimBlanks cs ++ back) ∧ AllBlank front ∧ AllBlank back := by
  have hfront : cs.takeWhile isBlank ++ cs.dropWhile isBlank = cs :=
    List.takeWhile_append_dropWhile
  have hback : trimBlanks cs ++ ((cs.dropWhile isBlank).reverse.takeWhile isBlank).reverse =
      cs.dropWhile isBlank := by
    rw [trimBlanks, ← List.reverse_append, List.takeWhile_append_dropWhile, List.reverse_reverse]
  refine ⟨cs.takeWhile isBlank, ((cs.dropWhile isBlank).reverse.takeWhile isBlank).reverse, ?_,
    allBlank_takeWhile cs, (allBlank_takeWhile _).reverse⟩
  rw [hback, hfront]

end Lisplet.Text
