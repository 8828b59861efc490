import Lisplet.Number
import Lisplet.Proofs.Reading.Splitting

/-!
# Written numbers are words

Whatever number is written, its text is one word: it is not empty, and it holds neither
a blank nor a parenthesis.
-/

namespace Lisplet

open Token

namespace Decimal

/-- A text of characters that can stand in a word. -/
def Inner (cs : List Char) : Prop := ∀ c ∈ cs, isInner c = true

/-- The code points of the ten digits of the numerals that are written. -/
theorem toNat_bounds {c : Char} (hc : c.isDigit = true) : 48 ≤ c.toNat ∧ c.toNat < 58 := by
  simp only [Char.isDigit, Bool.and_eq_true, decide_eq_true_eq, ge_iff_le,
    UInt32.le_iff_toNat_le] at hc
  exact ⟨hc.1, Nat.lt_succ_of_le hc.2⟩

theorem isInner_of_isDigit {c : Char} (hc : c.isDigit = true) : isInner c = true := by
  have hrange := toNat_bounds hc
  have hruns : ∀ run ∈ Text.blankRuns, run.2 < 48 ∨ 57 < run.1 := by decide
  have hblank : Text.isBlank c = false := by
    rw [Text.isBlank, List.any_eq_false]
    intro run hrun
    have := hruns run hrun
    simp only [Bool.and_eq_true, decide_eq_true_eq]
    omega
  have hparen : c ≠ '(' ∧ c ≠ ')' := by
    constructor <;> (rintro rfl; revert hc; decide)
  exact isInner_eq_true_iff.mpr ⟨hblank, hparen⟩

theorem inner_digits (n : Nat) : Inner (digits n) := fun _ hc =>
  isInner_of_isDigit (Nat.isDigit_of_mem_toDigits (by decide) (by decide) hc)

theorem inner_append {front back : List Char} (hfront : Inner front) (hback : Inner back) :
    Inner (front ++ back) := by
  intro c hc
  rcases List.mem_append.mp hc with hc | hc
  · exact hfront c hc
  · exact hback c hc

theorem inner_cons {c : Char} {cs : List Char} (hc : isInner c = true) (hcs : Inner cs) :
    Inner (c :: cs) :=
  List.forall_mem_cons.mpr ⟨hc, hcs⟩

theorem inner_replicate_zero (n : Nat) : Inner (List.replicate n '0') := by
  intro c hc
  rw [(List.mem_replicate.mp hc).2]
  decide

theorem inner_dropTrailingZeros {cs : List Char} (hcs : Inner cs) :
    Inner (dropTrailingZeros cs) := by
  intro c hc
  have hmem : c ∈ cs.reverse :=
    (List.dropWhile_sublist _).mem (List.mem_reverse.mp hc)
  exact hcs c (List.mem_reverse.mp hmem)

theorem inner_withPoint {whole fraction : List Char} (hwhole : Inner whole)
    (hfraction : Inner fraction) : Inner (withPoint whole fraction) := by
  rw [withPoint]
  split
  · exact hwhole
  · exact inner_append hwhole (inner_cons (by decide) hfraction)

theorem inner_fixed {significant : List Char} (hinner : Inner significant) (exponent : Int) :
    Inner (fixed significant exponent) := by
  rw [fixed]
  split
  · exact inner_withPoint (fun c hc => hinner c (List.mem_of_mem_take hc))
      (inner_dropTrailingZeros fun c hc => hinner c (List.mem_of_mem_drop hc))
  · exact inner_withPoint (inner_cons (by decide) (by simp [Inner]))
      (inner_dropTrailingZeros (inner_append (inner_replicate_zero _) hinner))

theorem inner_scientific {significant : List Char} (hinner : Inner significant)
    (exponent : Int) : Inner (scientific significant exponent) := by
  refine inner_append (inner_withPoint (fun c hc => hinner c (List.mem_of_mem_take hc))
    (inner_dropTrailingZeros fun c hc => hinner c (List.mem_of_mem_drop hc))) ?_
  refine inner_cons (by decide) (inner_cons (by split <;> decide) ?_)
  exact inner_append (inner_replicate_zero _) (inner_digits _)

theorem withPoint_ne_nil {whole : List Char} (hwhole : whole ≠ []) (fraction : List Char) :
    withPoint whole fraction ≠ [] := by
  rw [withPoint]
  split <;> simp [hwhole]

/-- The significant digits are the digits of a whole number. -/
theorem exists_significant_eq_digits (units : Nat) : ∃ n, (significant units).1 = digits n := by
  simp only [significant]
  split
  · exact ⟨_, rfl⟩
  · exact ⟨_, rfl⟩

theorem solid_general (units : Nat) : Solid (general units) := by
  obtain ⟨n, hdigits⟩ := exists_significant_eq_digits units
  have hinner : Inner (significant units).1 := hdigits ▸ inner_digits n
  have hne : (significant units).1 ≠ [] := hdigits ▸ Nat.toDigits_ne_nil
  simp only [general]
  split
  · refine ⟨?_, inner_fixed hinner _⟩
    rw [fixed]
    split
    · exact withPoint_ne_nil (by simpa using hne) _
    · exact withPoint_ne_nil (by simp) _
  · exact ⟨by simp [scientific], inner_scientific hinner _⟩

end Decimal

theorem Token.Solid.cons {c : Char} {cs : List Char} (hc : isInner c = true) (hcs : Solid cs) :
    Solid (c :: cs) :=
  ⟨by simp, Decimal.inner_cons hc hcs.inner⟩

theorem Double.solid_spelling (x : Double) : Solid x.spelling := by
  have hmagnitude : Solid (if x.isInfinite then ['i', 'n', 'f'] else Decimal.general x.units) := by
    split
    · exact .of_all (by simp) (by decide)
    · exact Decimal.solid_general _
  simp only [Double.spelling]
  split
  · exact .of_all (by simp) (by decide)
  · split
    · exact hmagnitude.cons (by decide)
    · exact hmagnitude

theorem Number.solid_spelling (x : Number) : Solid x.spelling := by
  cases x with
  | real x => exact x.solid_spelling
  | nan mark =>
      have hsolid : Solid ['n', 'a', 'n'] := .of_all (by simp) (by decide)
      exact hsolid

end Lisplet
