import Mathlib.Data.List.DropRight
import Lisplet.Text.Lines

/-!
# The line around a cut

Cutting a text in two cuts one of its lines.  Which line that is can be told from the line
feeds before the cut, and what stands on it before the cut are the characters behind the
last of them.  So it is for the pieces between line feeds; for the lines of a document it
is so where no other character ends a line before the cut.
-/

namespace Lisplet.Text

def sinceFeed (cs : List Char) : List Char := cs.rtakeWhile (· != '\n')

@[simp]
theorem sinceFeed_concat (cs : List Char) (c : Char) :
    sinceFeed (cs ++ [c]) = if c = '\n' then [] else sinceFeed cs ++ [c] := by
  rw [sinceFeed, List.rtakeWhile_concat]
  by_cases hc : c = '\n' <;> simp [hc, sinceFeed]

@[simp]
theorem sinceFeed_append_feed (front back : List Char) :
    sinceFeed (front ++ '\n' :: back) = sinceFeed back := by
  induction back using List.reverseRecOn with
  | nil => rw [sinceFeed_concat, if_pos rfl, sinceFeed, List.rtakeWhile_nil]
  | append_singleton back c ih =>
      rw [← List.cons_append, ← List.append_assoc, sinceFeed_concat, sinceFeed_concat, ih]

theorem sinceFeed_of_notMem {cs : List Char} (h : '\n' ∉ cs) : sinceFeed cs = cs := by
  rw [sinceFeed, List.rtakeWhile_eq_self_iff]
  intro c hc
  rw [bne_iff_ne]
  rintro rfl
  exact h hc

/-! ## Pieces between line feeds -/

theorem head?_feedLines_go (current cs : List Char) :
    (feedLines.go current cs).head? = some (current.reverse ++ cs.takeWhile (· != '\n')) := by
  induction cs generalizing current with
  | nil => simp [feedLines.go]
  | cons c cs ih =>
      rw [feedLines.go]
      by_cases hc : c = '\n'
      · simp [hc]
      · simp [hc, ih]

theorem getElem?_feedLines_go {current : List Char} (hcurrent : '\n' ∉ current)
    (front back : List Char) :
    (feedLines.go current (front ++ back))[front.count '\n']? =
      some (sinceFeed (current.reverse ++ front) ++ back.takeWhile (· != '\n')) := by
  induction front generalizing current with
  | nil =>
      rw [List.append_nil, sinceFeed_of_notMem (by simpa using hcurrent)]
      exact List.head?_eq_getElem?.symm.trans (head?_feedLines_go current back)
  | cons c front ih =>
      rw [List.cons_append, feedLines.go]
      by_cases hc : c = '\n'
      · subst hc
        rw [if_pos (beq_self_eq_true _), List.count_cons_self, List.getElem?_cons_succ,
          ih List.not_mem_nil, sinceFeed_append_feed]
        rfl
      · have hnext : '\n' ∉ c :: current := by simpa [Ne.symm hc] using hcurrent
        rw [if_neg (by simpa using hc), List.count_cons_of_ne hc, ih hnext]
        simp

/-- The piece around a cut. -/
theorem getElem?_feedLines (front back : List Char) :
    (feedLines (front ++ back))[front.count '\n']? =
      some (sinceFeed front ++ back.takeWhile (· != '\n')) :=
  getElem?_feedLines_go List.not_mem_nil front back

/-! ## Lines of a document -/

/-- Lines end with a line feed only, or with a carriage return and a line feed. -/
def PlainLineEnds (cs : List Char) : Prop :=
  ∀ front c back, cs = front ++ c :: back → isLineEnd c = true →
    c = '\n' ∨ c = '\r' ∧ back.head? = some '\n'

@[simp]
theorem plainLineEnds_cons_iff {c : Char} {cs : List Char} :
    PlainLineEnds (c :: cs) ↔
      (isLineEnd c = true → c = '\n' ∨ c = '\r' ∧ cs.head? = some '\n') ∧ PlainLineEnds cs := by
  constructor
  · intro h
    refine ⟨h [] c cs rfl, ?_⟩
    rintro front d back rfl
    exact h (c :: front) d back rfl
  · rintro ⟨hfirst, hrest⟩ front d back hcs
    rcases List.cons_eq_append_iff.mp hcs with ⟨rfl, hrfl⟩ | ⟨front, rfl, hsplit⟩
    · obtain ⟨rfl, rfl⟩ := List.cons.inj hrfl
      exact hfirst
    · exact hrest front d back hsplit

instance decidablePlainLineEnds : (cs : List Char) → Decidable (PlainLineEnds cs)
  | [] => .isTrue fun front c back hcs => by simp at hcs
  | _ :: cs =>
    have := decidablePlainLineEnds cs
    decidable_of_iff _ plainLineEnds_cons_iff.symm

/-- A part in front of something that does not start with a line feed. -/
theorem PlainLineEnds.of_append {front back : List Char} (h : PlainLineEnds (front ++ back))
    (hback : back.head? ≠ some '\n') : PlainLineEnds front := by
  rintro before c after rfl hc
  rcases h before c (after ++ back) (by simp) hc with hfeed | ⟨hreturn, hfeed⟩
  · exact .inl hfeed
  · cases after with
    | nil => exact absurd hfeed hback
    | cons d after => exact .inr ⟨hreturn, hfeed⟩

theorem documentLines_go_return (current cs : List Char) :
    documentLines.go current ('\r' :: '\n' :: cs) =
      ('\n' :: '\r' :: current).reverse :: documentLines.go [] cs := rfl

/-- The first character ends a line or does not.  A carriage return with a line feed behind
it is set apart, as the two end a line together. -/
theorem documentLines_go_cons (current : List Char) {c : Char} {cs : List Char}
    (hreturn : c = '\r' → cs.head? ≠ some '\n') :
    documentLines.go current (c :: cs) =
      if isLineEnd c then (c :: current).reverse :: documentLines.go [] cs
      else documentLines.go (c :: current) cs := by
  rw [documentLines.go.eq_def]
  split
  · next hempty => cases hempty
  · next rest hboth =>
      obtain ⟨rfl, rfl⟩ := List.cons.inj hboth
      exact absurd rfl (hreturn rfl)
  · next first rest hother hfirst =>
      obtain ⟨rfl, rfl⟩ := List.cons.inj hfirst
      rfl

/-- The first line goes on with the text up to where it ends. -/
theorem exists_head?_documentLines_go {current cs : List Char} (hne : current ≠ [] ∨ cs ≠ []) :
    ∃ after, (documentLines.go current cs).head? = some (current.reverse ++ after) ∧
      after.head? = cs.head? := by
  fun_induction documentLines.go current cs with
  | case1 current hempty =>
      obtain rfl := List.isEmpty_iff.mp hempty
      simp at hne
  | case2 current hempty => exact ⟨[], by simp, rfl⟩
  | case3 current cs ih => exact ⟨['\r', '\n'], by simp, rfl⟩
  | case4 current c cs hreturn hends ih => exact ⟨[c], by simp, rfl⟩
  | case5 current c cs hreturn hends ih =>
      obtain ⟨after, hhead, -⟩ := ih (.inl (List.cons_ne_nil c current))
      exact ⟨c :: after, by simpa using hhead, rfl⟩

/-- Characters that end no line are kept, last one first. -/
theorem documentLines_go_append {line : List Char} (hline : ∀ c ∈ line, isLineEnd c = false)
    (current back : List Char) :
    documentLines.go current (line ++ back) =
      documentLines.go (line.reverse ++ current) back := by
  induction line generalizing current with
  | nil => rfl
  | cons c line ih =>
      obtain ⟨hc, hline⟩ := List.forall_mem_cons.mp hline
      have hreturn : c = '\r' → (line ++ back).head? ≠ some '\n' := by
        rintro rfl
        cases hc
      rw [List.cons_append, documentLines_go_cons current hreturn, hc, if_neg Bool.false_ne_true,
        ih hline]
      simp

/-- A line that goes on with a word goes on behind it with the text up to where it ends. -/
theorem exists_head?_documentLines_go_append {word : List Char} (hne : word ≠ [])
    (hword : ∀ c ∈ word, isLineEnd c = false) (current back : List Char) :
    ∃ after, (documentLines.go current (word ++ back)).head? =
        some (current.reverse ++ (word ++ after)) ∧
      after.head? = back.head? := by
  have hkept : word.reverse ++ current ≠ [] := by simp [hne]
  obtain ⟨after, hhead, hafter⟩ := exists_head?_documentLines_go (.inl hkept)
  refine ⟨after, ?_, hafter⟩
  rw [documentLines_go_append hword, hhead]
  simp

theorem exists_getElem?_documentLines_go {current front : List Char} (hcurrent : '\n' ∉ current)
    (hfront : PlainLineEnds front) {word : List Char} (hne : word ≠ [])
    (hword : ∀ c ∈ word, isLineEnd c = false) (back : List Char) :
    ∃ after, (documentLines.go current (front ++ (word ++ back)))[front.count '\n']? =
        some (sinceFeed (current.reverse ++ front) ++ (word ++ after)) ∧
      after.head? = back.head? := by
  -- the recursion of the lines of `front` alone, as `front` ends before the word
  fun_induction documentLines.go current front with
  | case1 current hempty | case2 current hempty =>
      rw [List.append_nil, sinceFeed_of_notMem (by simpa using hcurrent)]
      simpa [List.head?_eq_getElem?] using
        exists_head?_documentLines_go_append hne hword current back
  | case3 current front ih =>
      have hbehind : PlainLineEnds front :=
        (plainLineEnds_cons_iff.mp (plainLineEnds_cons_iff.mp hfront).2).2
      obtain ⟨after, hget, hafter⟩ := ih List.not_mem_nil hbehind
      have hreturn : (current.reverse ++ '\r' :: '\n' :: front) =
          current.reverse ++ ['\r'] ++ '\n' :: front := by simp
      refine ⟨after, ?_, hafter⟩
      rw [List.cons_append, List.cons_append, documentLines_go_return,
        List.count_cons_of_ne (by decide), List.count_cons_self, List.getElem?_cons_succ, hget,
        hreturn, sinceFeed_append_feed]
      rfl
  | case4 current c front hreturn hends ih =>
      obtain rfl : c = '\n' := by
        rcases (plainLineEnds_cons_iff.mp hfront).1 hends with hfeed | ⟨hc, hfeed⟩
        · exact hfeed
        · obtain ⟨rest, rfl⟩ := List.head?_eq_some_iff.mp hfeed
          exact absurd rfl (hreturn rest hc)
      obtain ⟨after, hget, hafter⟩ := ih List.not_mem_nil (plainLineEnds_cons_iff.mp hfront).2
      refine ⟨after, ?_, hafter⟩
      rw [List.cons_append, documentLines_go_cons current (by simp), if_pos (by decide),
        List.count_cons_self, List.getElem?_cons_succ, hget, sinceFeed_append_feed]
      rfl
  | case5 current c front hreturn hends ih =>
      have hc : c ≠ '\r' ∧ c ≠ '\n' := by
        constructor <;> (rintro rfl; exact hends (by decide))
      have hnext : '\n' ∉ c :: current := by simpa [Ne.symm hc.2] using hcurrent
      obtain ⟨after, hget, hafter⟩ := ih hnext (plainLineEnds_cons_iff.mp hfront).2
      refine ⟨after, ?_, hafter⟩
      rw [List.cons_append, documentLines_go_cons current (absurd · hc.1), if_neg hends,
        List.count_cons_of_ne hc.2, hget]
      simp

/-- The line around a word, where lines end plainly before it. -/
theorem exists_getElem?_documentLines {front word : List Char} (hfront : PlainLineEnds front)
    (hne : word ≠ []) (hword : ∀ c ∈ word, isLineEnd c = false) (back : List Char) :
    ∃ after, (documentLines (front ++ (word ++ back)))[front.count '\n']? =
        some (sinceFeed front ++ (word ++ after)) ∧
      after.head? = back.head? :=
  exists_getElem?_documentLines_go List.not_mem_nil hfront hne hword back

end Lisplet.Text
