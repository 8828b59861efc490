import Lisplet.Datum.Reading
import Lisplet.Proofs.Decimal.Denotation
import Lisplet.Proofs.Decimal.FifteenDigits
import Lisplet.Proofs.Decimal.Layout

/-!
# What a written number is read as

A finite double is written as a numeral, and the double that the numeral denotes is
written in the same way, up to the fifth place before infinity.  The four places after
it are written with digits that lie beyond the largest finite double, and come back as
infinity.
-/

namespace Lisplet

open Decimal

namespace Decimal

/-- The written form depends on the digits and their exponent only. -/
theorem general_congr {units other : Nat} (h : significant units = significant other) :
    general units = general other := by
  rw [general, general, h]

theorem length_digits {m : Nat} (hm : Fifteen m) : (digits m).length = 15 := by
  have hupper := (Nat.length_toDigits_le_iff (by decide) (by decide)).mpr hm.2
  have hlower := mt (Nat.length_toDigits_le_iff (by decide) (show 0 < 14 by decide)).mp
    (Nat.not_lt_of_le hm.1)
  rw [digits]
  omega

/-- In general notation a size denotes its fifteen digits. -/
theorem denotes_general {units m : Nat} {exponent : Int}
    (hsignificant : significant units = (digits m, exponent)) (hm : Fifteen m) :
    Denotes (general units) (m * 10 ^ (exponent - 14)) := by
  have hlength := length_digits hm
  have hscientific := denotes_scientific (allDigits_digits m) hlength exponent
  rw [valueOf_digits] at hscientific
  rw [general, hsignificant]
  dsimp only
  split
  · next hrange =>
      have hfixed := denotes_fixed (allDigits_digits m) hlength hrange.2
      rwa [valueOf_digits] at hfixed
  · exact hscientific

theorem significant_zero_ne {m : Nat} (hm : Fifteen m) (exponent : Int) :
    significant 0 ≠ (digits m, exponent) := by
  intro h
  have hzero : (significant 0).1 = ['0'] := by decide +kernel
  have hlength := congrArg List.length hzero
  rw [h, length_digits hm] at hlength
  cases hlength

end Decimal

namespace Double

theorem spelling_eq_signed {x : Double} (hpos : 0 < x.place) (hfinite : x.place < infinityPlace) :
    x.spelling = signed x.negative (general x.units) := by
  have hzero : x.isZero = false := beq_false_of_ne (Nat.ne_of_gt hpos)
  have hinfinite : x.isInfinite = false := beq_false_of_ne (Nat.ne_of_lt hfinite)
  rw [spelling, hzero, hinfinite, if_neg Bool.false_ne_true, if_neg Bool.false_ne_true, signed]

/-- What has fifteen digits when it is rounded is written with them. -/
theorem spelling_nearest (negative : Bool) {numerator denominator m : Nat} {exponent : ℤ}
    (hm : Fifteen m) (hfinite : nearestPlace numerator denominator < infinityPlace)
    (hsignificant : significant (magnitude (nearestPlace numerator denominator)) =
      (digits m, exponent)) :
    (nearest negative numerator denominator).spelling =
      signed negative (general (magnitude (nearestPlace numerator denominator))) := by
  have hplace := place_nearest negative hfinite
  have hpos : 0 < nearestPlace numerator denominator := by
    rw [Nat.pos_iff_ne_zero]
    intro hzero
    rw [hzero, magnitude_of_lt binade_pos] at hsignificant
    exact significant_zero_ne hm exponent hsignificant
  rw [spelling_eq_signed (by rwa [hplace]) (by rwa [hplace]), units_eq_magnitude, hplace]
  rfl

/-- Up to the fifth place before infinity a written double is read as a double that is
written in the same way. -/
theorem exists_ofToken_spelling {x : Double} (hpos : 0 < x.place)
    (hend : x.place + 4 < infinityPlace) :
    ∃ y : Double, Datum.ofToken (String.ofList x.spelling) = .number (.real y) ∧
      y.spelling = x.spelling := by
  have hunits : 0 < x.units := magnitude_pos hpos
  obtain ⟨m, exponent, hsignificant, hm, hnear⟩ := exists_significant_eq hunits
  have hnearUnits := abs_mul_lastPlace_sub_le hnear
  have hbound : (x.units : ℚ) ≤ (2 * binade - 5) * 2 ^ largestScale := by
    rw [units_eq_magnitude]
    exact cast_magnitude_le hend
  have hspelling : x.spelling = signed x.negative (general x.units) :=
    spelling_eq_signed hpos (by omega)
  obtain ⟨n, hwritten, hnegative, hsize⟩ := denotes_general hsignificant hm x.negative
  obtain ⟨numerator, denominator, hdenominator, hdouble, hratio⟩ :=
    Numeral.exists_toDouble_eq hwritten.digits_lt
  rw [hsize, mul_assoc, mul_comm ((10 : ℚ) ^ _), ← lastPlace] at hratio
  have hfinite : nearestPlace numerator denominator < infinityPlace := by
    apply nearestPlace_lt_infinityPlace hdenominator
    rw [hratio]
    exact mul_lastPlace_lt hm hnearUnits hbound
  have hsame := significant_nearestPlace hsignificant hm hnear hdenominator hratio
  refine ⟨n.toDouble, ?_, ?_⟩
  · rw [Datum.ofToken, String.toList_ofList, hspelling,
      Numeral.ofChars?_eq_some_iff.mpr hwritten]
  · rw [hdouble, hnegative, spelling_nearest x.negative hm hfinite hsame, hspelling,
      general_congr (hsame.trans hsignificant.symm)]

/-! ## The last places before infinity -/

/-- What the four largest finite sizes are written as. -/
def lastSpelling : List Char := "1.79769313486232e+308".toList

theorem general_last :
    ∀ below ∈ [1, 2, 3, 4], general (magnitude (infinityPlace - below)) = lastSpelling := by
  decide +kernel

theorem ofChars?_lastSpelling (negative : Bool) :
    ∃ n : Numeral, Numeral.ofChars? (signed negative lastSpelling) = some n ∧
      n.toDouble = infinity negative := by
  refine ⟨⟨negative, [1], [7, 9, 7, 6, 9, 3, 1, 3, 4, 8, 6, 2, 3, 2], 308⟩, ?_, ?_⟩
  · revert negative
    decide +kernel
  · revert negative
    decide +kernel

/-- The four largest finite sizes are read back as infinity. -/
theorem ofToken_spelling_last {x : Double} (hfinite : x.place < infinityPlace)
    (hlast : infinityPlace ≤ x.place + 4) :
    x.spelling = signed x.negative lastSpelling ∧
      Datum.ofToken (String.ofList x.spelling) = .number (.real (infinity x.negative)) := by
  have hpos : 0 < x.place := by
    have hlarge : 4 < infinityPlace := by decide +kernel
    omega
  obtain ⟨below, hmem, hbelow⟩ :
      ∃ below ∈ [1, 2, 3, 4], x.place = infinityPlace - below := by
    refine ⟨infinityPlace - x.place, ?_, by omega⟩
    simp only [List.mem_cons, List.not_mem_nil, or_false]
    omega
  have hspelling : x.spelling = signed x.negative lastSpelling := by
    rw [spelling_eq_signed hpos hfinite, units_eq_magnitude, hbelow, general_last below hmem]
  obtain ⟨n, hread, hdouble⟩ := ofChars?_lastSpelling x.negative
  refine ⟨hspelling, ?_⟩
  rw [Datum.ofToken, String.toList_ofList, hspelling, hread, ← hdouble]

end Double

end Lisplet
