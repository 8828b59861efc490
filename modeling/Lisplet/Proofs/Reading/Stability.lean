import Lisplet.Proofs.Decimal.Reproduction
import Lisplet.Proofs.Reading.ReadBack

/-!
# Writing what was read back

A list that is written, read and written again shows the same text when each of its
leaves does.  A leaf that does not comes back with a shorter text, so that no leaf can
make up for another one.  The only leaves that do not are the four largest finite sizes
of either sign: fifteen digits put them beyond the range, and they come back as
infinity.
-/

namespace Lisplet

/-! ## Texts that may become shorter -/

/-- A text is no longer than another one, and it is the other one under a condition. -/
structure Shortens (new old : List Char) (condition : Prop) : Prop where
  length_le : new.length ≤ old.length
  eq_iff : new = old ↔ condition

namespace Shortens

theorem refl (cs : List Char) : Shortens cs cs True := ⟨Nat.le_refl _, by simp⟩

/-- If two texts in a row are the same as before, each of them is. -/
theorem append {new old later laterOld : List Char} {condition other : Prop}
    (hfront : Shortens new old condition) (hback : Shortens later laterOld other) :
    Shortens (new ++ later) (old ++ laterOld) (condition ∧ other) := by
  have hlength := hfront.length_le
  have hlater := hback.length_le
  constructor
  · rw [List.length_append, List.length_append]
    omega
  · constructor
    · intro hequal
      have htotal := congrArg List.length hequal
      rw [List.length_append, List.length_append] at htotal
      obtain ⟨hnew, hback'⟩ := List.append_inj hequal (by omega)
      exact ⟨hfront.eq_iff.mp hnew, hback.eq_iff.mp hback'⟩
    · rintro ⟨hcondition, hother⟩
      rw [hfront.eq_iff.mpr hcondition, hback.eq_iff.mpr hother]

theorem congr {new old : List Char} {condition other : Prop}
    (h : Shortens new old condition) (hiff : condition ↔ other) : Shortens new old other :=
  ⟨h.length_le, h.eq_iff.trans hiff⟩

end Shortens

namespace Datum

/-- What a leaf is written as after it was written and read. -/
def rewritten (leaf : Datum) : List Char := (ofToken leaf.nestedText).spelling

mutual

/-- A datum shows the same text again if and only if its leaves do. -/
theorem shortens_reread : (d : Datum) →
    (∀ leaf ∈ d.leaves, leaf.rewritten.length ≤ leaf.spelling.length) →
    Shortens d.reread.spelling d.spelling (∀ leaf ∈ d.leaves, leaf.rewritten = leaf.spelling)
  | number x, h => ⟨h _ (by simp [leaves]), by simp [leaves, reread, rewritten]⟩
  | boolean b, h => ⟨h _ (by simp [leaves]), by simp [leaves, reread, rewritten]⟩
  | symbol name, h => ⟨h _ (by simp [leaves]), by simp [leaves, reread, rewritten]⟩
  | list items, h => by
    have hinner := (Shortens.refl ['(']).append
      ((shortens_rereadAll items h).append (Shortens.refl [')']))
    rw [reread, spelling, spelling, leaves]
    exact hinner.congr (by simp)

theorem shortens_rereadAll : (items : List Datum) →
    (∀ leaf ∈ leavesAll items, leaf.rewritten.length ≤ leaf.spelling.length) →
    Shortens (spellingAll (rereadAll items)) (spellingAll items)
      (∀ leaf ∈ leavesAll items, leaf.rewritten = leaf.spelling)
  | [], _ => ⟨Nat.le_refl _, by simp [leavesAll, rereadAll]⟩
  | [item], h => by
    rw [leavesAll, leavesAll, List.append_nil] at h ⊢
    rw [rereadAll, rereadAll, spellingAll, spellingAll]
    exact shortens_reread item h
  | item :: next :: items, h => by
    rw [leavesAll, List.forall_mem_append] at h
    have hlater := (Shortens.refl [' ']).append (shortens_rereadAll (next :: items) h.2)
    have hboth := (shortens_reread item h.1).append hlater
    rw [leavesAll, rereadAll]
    exact hboth.congr (by rw [List.forall_mem_append, true_and])

end

/-! ## The nesting of what was read back -/

@[simp]
theorem writingDepth_ofToken (token : String) : (ofToken token).writingDepth = 1 := by
  rw [ofToken]
  repeat' split
  all_goals rfl

mutual

theorem writingDepth_reread : (d : Datum) → d.reread.writingDepth = d.writingDepth
  | number _ | boolean _ | symbol _ => writingDepth_ofToken _
  | list [] => rfl
  | list (item :: items) => by
    rw [reread, rereadAll, writingDepth, writingDepth, writingDepth_reread item,
      writingDepthAll_rereadAll items]

theorem writingDepthAll_rereadAll : (items : List Datum) →
    writingDepthAll (rereadAll items) = writingDepthAll items
  | [] => rfl
  | item :: items => by
    rw [rereadAll, writingDepthAll, writingDepthAll, writingDepth_reread item,
      writingDepthAll_rereadAll items]

end

end Datum

/-! ## Leaves -/

/-- The texts that stand for a value of their own, or for something that cannot be
written. -/
def fixedTexts : List String := ["0", "inf", "-inf", "nan", "#t", "#f", Value.procedureName]

theorem spelling_ofToken_fixed :
    ∀ text ∈ fixedTexts, (Datum.ofToken text).spelling = text.toList := by
  decide +kernel

/-- The names of symbols that the reader can produce. -/
structure Token.NamesSymbol (name : String) : Prop where
  solid : Token.Solid name.toList
  not_numeral : Numeral.ofChars? name.toList = none
  not_true : name ≠ "#t"
  not_false : name ≠ "#f"

theorem Token.NamesSymbol.ofToken_eq {name : String} (h : Token.NamesSymbol name) :
    Datum.ofToken name = .symbol name := by
  have hne : name ≠ "" := by
    rintro rfl
    exact h.solid.ne_nil rfl
  rw [Datum.ofToken, h.not_numeral]
  dsimp only
  rw [if_neg h.not_true, if_neg h.not_false, if_neg hne]

/-- A number shows the same text again, unless its size is one of the four largest
finite ones. -/
def Number.Stable : Number → Prop
  | .real x => x.isInfinite = true ∨ x.place + 4 < Double.infinityPlace
  | .nan _ => True

namespace Double

theorem spelling_infinity (negative : Bool) :
    (infinity negative).spelling = Decimal.signed negative ['i', 'n', 'f'] := by
  revert negative
  decide +kernel

/-- What stands for infinity is a symbol, and the symbol shows the same text. -/
theorem ofToken_infinity (negative : Bool) :
    (Datum.ofToken (String.ofList (infinity negative).spelling)).spelling =
      (infinity negative).spelling := by
  rw [spelling_infinity]
  cases negative with
  | true => exact spelling_ofToken_fixed "-inf" (by decide)
  | false => exact spelling_ofToken_fixed "inf" (by decide)

theorem eq_infinity {x : Double} (hinfinite : x.isInfinite = true) : x = infinity x.negative := by
  have hplace : x.place = infinityPlace := by simpa [isInfinite] using hinfinite
  obtain ⟨negative, place, hle⟩ := x
  obtain rfl : place = infinityPlace := hplace
  simp [infinity, ofPlace]

theorem spelling_of_isZero {x : Double} (hzero : x.isZero = true) : x.spelling = ['0'] := by
  rw [spelling, if_pos hzero]

theorem shortens_spelling (x : Double) :
    Shortens (Datum.number (.real x)).rewritten x.spelling (Number.real x).Stable := by
  have hrewritten : (Datum.number (.real x)).rewritten =
      (Datum.ofToken (String.ofList x.spelling)).spelling := rfl
  have hinfinityPlace : 4 < infinityPlace := by decide +kernel
  rw [hrewritten]
  by_cases hinfinite : x.isInfinite = true
  · rw [eq_infinity hinfinite, ofToken_infinity]
    exact (Shortens.refl _).congr
      (iff_of_true trivial (.inl (eq_infinity hinfinite ▸ hinfinite)))
  · by_cases hzero : x.isZero = true
    · have hplace : x.place = 0 := by simpa [isZero] using hzero
      rw [spelling_of_isZero hzero]
      have hread : (Datum.ofToken (String.ofList ['0'])).spelling = ['0'] :=
        spelling_ofToken_fixed "0" (by decide)
      rw [hread]
      refine (Shortens.refl _).congr (iff_of_true trivial (.inr ?_))
      rw [hplace]
      exact hinfinityPlace
    · have hpos : 0 < x.place := Nat.pos_of_ne_zero (by simpa [isZero] using hzero)
      have hfinite : x.place < infinityPlace :=
        Nat.lt_of_le_of_ne x.place_le (by simpa [isInfinite] using hinfinite)
      by_cases hend : x.place + 4 < infinityPlace
      · obtain ⟨y, hread, hsame⟩ := exists_ofToken_spelling hpos hend
        have hspelling : (Datum.number (.real y)).spelling = y.spelling := rfl
        rw [hread, hspelling, hsame]
        exact (Shortens.refl _).congr (iff_of_true trivial (.inr hend))
      · obtain ⟨hspelling, hread⟩ := ofToken_spelling_last hfinite (Nat.le_of_not_lt hend)
        have hinfinity : (Datum.number (.real (infinity x.negative))).spelling =
            (infinity x.negative).spelling := rfl
        have hlength : (Decimal.signed x.negative ['i', 'n', 'f']).length <
            (Decimal.signed x.negative lastSpelling).length := by
          cases x.negative <;> decide
        rw [hread, hinfinity, hspelling, spelling_infinity]
        refine ⟨Nat.le_of_lt hlength, iff_of_false ?_ (not_or_intro hinfinite hend)⟩
        intro hequal
        rw [hequal] at hlength
        exact Nat.lt_irrefl _ hlength

end Double

theorem Number.shortens_spelling (x : Number) :
    Shortens (Datum.number x).rewritten x.spelling x.Stable := by
  cases x with
  | real x => exact x.shortens_spelling
  | nan mark =>
      have hread : (Datum.number (.nan mark)).rewritten = ['n', 'a', 'n'] :=
        spelling_ofToken_fixed "nan" (by decide)
      have hspelling : (Number.nan mark).spelling = ['n', 'a', 'n'] := rfl
      rw [hread, hspelling]
      exact (Shortens.refl _).congr (iff_of_true trivial trivial)

namespace Value

/-- A leaf shows the same text again, unless it is one of the four largest finite
numbers. -/
def Stable : Value → Prop
  | number x => x.Stable
  | _ => True

/-- Every kind of leaf. -/
theorem shortens_leaf {leaf : Value} (hlist : ∀ identity items, leaf ≠ list identity items)
    (hsymbol : ∀ name, leaf = symbol name → Token.NamesSymbol name) :
    Shortens leaf.datum.rewritten leaf.datum.spelling leaf.Stable := by
  have hsame {d : Datum} (h : d.rewritten = d.spelling) : Shortens d.rewritten d.spelling True :=
    ⟨Nat.le_of_eq (congrArg List.length h), iff_of_true h trivial⟩
  cases leaf with
  | number x => exact x.shortens_spelling
  | boolean b =>
      apply hsame
      cases b with
      | true => exact spelling_ofToken_fixed "#t" (by decide)
      | false => exact spelling_ofToken_fixed "#f" (by decide)
  | symbol name =>
      apply hsame
      rw [datum, Datum.rewritten, Datum.nestedText, Datum.spelling, String.ofList_toList,
        (hsymbol name rfl).ofToken_eq]
      rfl
  | list identity items => exact absurd rfl (hlist identity items)
  | primitive | closure => exact hsame (spelling_ofToken_fixed procedureName (by decide))

theorem forall_stable_iff (leaves : List Value) :
    (∀ leaf ∈ leaves, leaf.Stable) ↔ ∀ x, number (.real x) ∈ leaves →
      x.isInfinite = true ∨ x.place + 4 < Double.infinityPlace := by
  constructor
  · intro h x hx
    exact h _ hx
  · intro h leaf hleaf
    cases leaf with
    | number x =>
        cases x with
        | real x => exact h x hleaf
        | nan mark => exact trivial
    | _ => exact trivial

/-- A value shows the same text again if and only if its leaves are stable. -/
theorem spelling_reread_eq_iff {v : Value}
    (hsymbols : ∀ name, symbol name ∈ v.leaves → Token.NamesSymbol name) :
    v.reread.spelling = v.datum.spelling ↔ ∀ leaf ∈ v.leaves, leaf.Stable := by
  have hleaf (leaf : Value) (hmem : leaf ∈ v.leaves) :
      Shortens leaf.datum.rewritten leaf.datum.spelling leaf.Stable := by
    apply shortens_leaf (leaves_ne_list v leaf hmem)
    rintro name rfl
    exact hsymbols name hmem
  have hlength : ∀ leaf ∈ v.datum.leaves, leaf.rewritten.length ≤ leaf.spelling.length := by
    rw [leaves_datum, List.forall_mem_map]
    intro leaf hmem
    exact (hleaf leaf hmem).length_le
  rw [← reread_datum, (Datum.shortens_reread v.datum hlength).eq_iff, leaves_datum,
    List.forall_mem_map]
  exact forall₂_congr fun leaf hmem => (hleaf leaf hmem).eq_iff

/-- Writing, reading and writing again.  A list that is not empty and whose symbols are
ones that the reader can produce is written and read without a failure when the room
suffices, and what is read can be written too.  It shows the same text if and only if no
number in the list is one of the four largest finite sizes of either sign. -/
theorem text_read_text_iff (limit : Nat) (identity : Identity) (item : Value) (items : List Value)
    (hsymbols : ∀ name, symbol name ∈ (list identity (item :: items)).leaves →
      Token.NamesSymbol name)
    (hdepth : (list identity (item :: items)).datum.writingDepth ≤ limit) :
    ∃ d, (list identity (item :: items)).datum.write limit =
          .ok (list identity (item :: items)).text ∧
      readDatum limit (Token.split (list identity (item :: items)).text.toList) = (.ok d, []) ∧
      d.write limit = .ok d.text ∧
      (d.text = (list identity (item :: items)).text ↔
        ∀ x, number (.real x) ∈ (list identity (item :: items)).leaves →
          x.isInfinite = true ∨ x.place + 4 < Double.infinityPlace) := by
  obtain ⟨hwrite, hread, -⟩ := readDatum_text_list limit identity item items
    (fun name hname => (hsymbols name hname).solid) hdepth
  refine ⟨_, hwrite, hread, if_pos ?_, ?_⟩
  · rw [← reread_datum, Datum.writingDepth_reread]
    exact hdepth
  · -- the text of a list that is not empty is its written form
    have htext : (list identity (item :: items)).reread.text =
        String.ofList (list identity (item :: items)).reread.spelling := rfl
    rw [htext, ← forall_stable_iff, ← spelling_reread_eq_iff hsymbols, ← toList_text_cons,
      ← String.toList_inj, String.toList_ofList]

def largest : Value := number (.real (.ofPlace false (Double.infinityPlace - 1)))

/-- The largest finite number does not show the same text again. -/
theorem text_read_text_ne_largest :
    ∃ d, (list 1 [largest]).text = "(1.79769313486232e+308)" ∧
      readDatum 1000 (Token.split "(1.79769313486232e+308)".toList) = (.ok d, []) ∧
      d.text ≠ "(1.79769313486232e+308)" := by
  have hsymbols : ∀ name, symbol name ∈ (list 1 [largest]).leaves →
      Token.NamesSymbol name := by
    simp [largest, leaves, leavesAll]
  have hdepth : (list 1 [largest]).datum.writingDepth ≤ 1000 := by decide
  have htext : (list 1 [largest]).text = "(1.79769313486232e+308)" := by decide +kernel
  have hunstable : ¬ ((Double.ofPlace false (Double.infinityPlace - 1)).isInfinite = true ∨
      (Double.ofPlace false (Double.infinityPlace - 1)).place + 4 < Double.infinityPlace) := by
    decide +kernel
  obtain ⟨d, -, hread, -, hiff⟩ := text_read_text_iff 1000 1 largest [] hsymbols hdepth
  rw [htext] at hread hiff
  refine ⟨d, htext, hread, fun hsame => hunstable (hiff.mp hsame _ ?_)⟩
  exact List.mem_singleton_self _

end Value

end Lisplet
