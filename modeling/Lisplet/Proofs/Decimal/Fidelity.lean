import Lisplet.Proofs.Decimal.Reproduction

/-!
# Numbers of fifteen digits

A number with at most fifteen significant digits is written as itself after it was read,
unless it is so small that doubles near it have fewer bits, or so large that it is read
as infinity.  A whole number below `10 ^ 15` is moreover written the way whole numbers
are: its digits are the significant ones with the zeros that were dropped, and the point
stands after all of them.
-/

namespace Lisplet

namespace Decimal

/-- A number with no more significant digits than are written. -/
def WithinPrecision (q : ℚ) : Prop := ∃ m e : ℤ, |m| < 10 ^ precision ∧ q = m * 10 ^ e

/-- Zeros at the end make up for the missing digits. -/
theorem exists_fifteen_mul {n : Nat} (hpos : 0 < n) (hless : n < 10 ^ 15) :
    ∃ zeros, (digits n).length + zeros = 15 ∧ Fifteen (n * 10 ^ zeros) := by
  obtain ⟨hlow, hhigh⟩ := pow_length_digits hpos
  have hlength : (digits n).length - 1 < 15 :=
    (Nat.pow_lt_pow_iff_right (by decide)).mp (hlow.trans_lt hless)
  have hsome : 0 < (digits n).length := Nat.length_toDigits_pos
  have hzeros : (digits n).length + (15 - (digits n).length) = 15 := by omega
  refine ⟨_, hzeros, ?_, ?_⟩
  · calc
      10 ^ 14 = 10 ^ ((digits n).length - 1) * 10 ^ (15 - (digits n).length) := by
        rw [← pow_add, show (digits n).length - 1 + (15 - (digits n).length) = 14 by omega]
      _ ≤ n * 10 ^ (15 - (digits n).length) := Nat.mul_le_mul_right _ hlow
  · calc
      n * 10 ^ (15 - (digits n).length)
          < 10 ^ (digits n).length * 10 ^ (15 - (digits n).length) :=
        Nat.mul_lt_mul_of_pos_right hhigh (Nat.pow_pos (by decide))
      _ = 10 ^ 15 := by rw [← pow_add, hzeros]

/-! ## Whole numbers -/

theorem digits_mul_pow {n : Nat} (hpos : 0 < n) (zeros : Nat) :
    digits (n * 10 ^ zeros) = digits n ++ List.replicate zeros '0' := by
  induction zeros with
  | zero => simp
  | succ zeros ih =>
      have hnext := Nat.toDigits_append_toDigits (b := 10) (d := 0) (by decide)
        (Nat.mul_pos hpos (Nat.pow_pos (by decide) : 0 < 10 ^ zeros)) (by decide)
      rw [Nat.add_zero, Nat.mul_left_comm, ← pow_succ', ← digits, ih] at hnext
      rw [digits, ← hnext, List.replicate_succ', List.append_assoc]
      rfl

@[simp]
theorem dropTrailingZeros_replicate (zeros : Nat) :
    dropTrailingZeros (List.replicate zeros '0') = [] := by
  simp [dropTrailingZeros]

/-- With the point after all the digits, the zeros behind it are dropped with it. -/
theorem fixed_append_replicate {whole : List Char} (hne : whole ≠ []) (zeros : Nat) :
    fixed (whole ++ List.replicate zeros '0') ((whole.length : ℤ) - 1) = whole := by
  have hlength := List.length_pos_iff.mpr hne
  have hpoint : ((whole.length : ℤ) - 1).toNat + 1 = whole.length := by omega
  rw [fixed, if_pos (by omega)]
  dsimp only
  rw [hpoint, List.take_left, List.drop_left, dropTrailingZeros_replicate]
  rfl

theorem general_mul_unitsOfOne {n : Nat} (hpos : 0 < n) (hless : n < 10 ^ 15) :
    general (n * Double.unitsOfOne) = digits n := by
  obtain ⟨zeros, hlength, hfifteen⟩ := exists_fifteen_mul hpos hless
  have hone := Double.cast_unitsOfOne_pos
  have hsome : 0 < (digits n).length := Nat.length_toDigits_pos
  have hexponent : ((digits n).length : ℤ) - 1 = 14 - zeros := by omega
  have hratio : ((n * Double.unitsOfOne : ℕ) : ℚ) / lastPlace ((digits n).length - 1) =
      (n * 10 ^ zeros : ℕ) := by
    rw [lastPlace_of_eq_sub hexponent, div_div_eq_mul_div, Nat.cast_mul, mul_right_comm,
      mul_div_cancel_right₀ _ hone.ne', Nat.cast_mul]
    rfl
  have hsignificant : significant (n * Double.unitsOfOne) =
      (digits (n * 10 ^ zeros), ((digits n).length : ℤ) - 1) := by
    apply significant_eq_of_le hfifteen
    · rw [hratio]
      exact_mod_cast hfifteen.1
    · rw [hratio, sub_self, abs_zero]
      norm_num
  rw [general, hsignificant]
  dsimp only
  rw [if_pos ⟨by omega, by rw [precision]; omega⟩, digits_mul_pow hpos]
  exact fixed_append_replicate Nat.toDigits_ne_nil zeros

theorem toList_toString (k : ℤ) :
    (toString k).toList = signed (decide (k < 0)) (digits k.natAbs) := by
  cases k <;> simp [signed, toString, Int.repr, Nat.repr, digits]

/-- A whole number is a numeral, and denotes itself. -/
theorem exists_written_toString (k : ℤ) :
    ∃ n, Numeral.Written (toString k).toList n ∧ n.value = k := by
  have hnone : AllDigits [] := by simp [AllDigits]
  have hdenotes := denotes_withPoint (allDigits_digits k.natAbs) Nat.toDigits_ne_nil hnone .absent
  obtain ⟨n, hwritten, hnegative, hsize⟩ := hdenotes (decide (k < 0))
  refine ⟨n, ?_, ?_⟩
  · rw [toList_toString]
    simpa [withPoint, dropTrailingZeros] using hwritten
  · have hsize' : n.size = k.natAbs := by simpa [valueOf_digits] using hsize
    rw [Numeral.value, hnegative, hsize', Nat.cast_natAbs, Int.cast_abs]
    split
    · next hneg =>
        rw [abs_of_neg (by simpa using hneg), neg_neg]
    · next hneg =>
        exact abs_of_nonneg (by simpa using hneg)

end Decimal

open Decimal

namespace Double

/-- A double that is a whole number below `10 ^ 15` is written as one. -/
theorem spelling_of_value_eq {x : Double} {k : ℤ} (hfinite : x.isInfinite = false)
    (hx : x.value = k) (hk : |k| < 10 ^ 15) : x.spelling = (toString k).toList := by
  have hunits := units_of_value_eq hx
  by_cases hne : k = 0
  · subst hne
    have hzero : x.isZero = true := by
      rw [isZero, beq_iff_eq]
      by_contra hplace
      have hpos := magnitude_pos (Nat.pos_of_ne_zero hplace)
      rw [← units_eq_magnitude, hunits] at hpos
      simp at hpos
    rw [spelling, if_pos hzero]
    rfl
  · have hpos : 0 < x.place := by
      rw [Nat.pos_iff_ne_zero]
      intro hzero
      rw [units_eq_magnitude, hzero, magnitude_of_lt binade_pos] at hunits
      have hprod := Nat.mul_pos (Int.natAbs_pos.mpr hne) unitsOfOne_pos
      omega
    have hless : x.place < infinityPlace := lt_of_le_of_ne x.place_le (by
      simpa [isInfinite] using hfinite)
    have hnatAbs : k.natAbs < 10 ^ 15 := by
      rw [Int.abs_eq_natAbs] at hk
      exact_mod_cast hk
    have hgeneral : general (k.natAbs * unitsOfOne) = digits k.natAbs :=
      general_mul_unitsOfOne (Int.natAbs_pos.mpr hne) hnatAbs
    rw [spelling_eq_signed hpos hless, hunits, hgeneral, negative_of_value_eq hx hne,
      toList_toString]

/-! ## Numbers with few digits -/

/-- The exponent of a number that is not too small. -/
theorem le_exponent {m : Nat} {exponent : ℤ} (hm : Fifteen m)
    (hlow : (binade : ℚ) ≤ m * lastPlace exponent) : -308 ≤ exponent := by
  by_contra hless
  obtain ⟨-, -, -, -, hpoint⟩ := lastPlace_bottom
  have hbinade : (binade : ℚ) = 4503599627370496 := by norm_num [binade, fractionBits]
  have hhigh : (m : ℚ) ≤ 10 ^ 15 := by exact_mod_cast hm.2.le
  have hmono : lastPlace exponent ≤ lastPlace (-309) := lastPlace_mono (by omega)
  have hprod := mul_le_mul hhigh hmono (lastPlace_pos exponent).le (by norm_num)
  linarith

end Double

namespace Decimal

theorem WithinPrecision.exists_fifteen {q : ℚ} (h : WithinPrecision q) (hne : q ≠ 0) :
    ∃ (m : Nat) (exponent : ℤ), Fifteen m ∧ |q| = m * 10 ^ (exponent - 14) := by
  obtain ⟨m, e, hm, rfl⟩ := h
  have hpos : 0 < m.natAbs := by
    rw [Int.natAbs_pos]
    rintro rfl
    simp at hne
  have hless : m.natAbs < 10 ^ 15 := by
    rw [Int.abs_eq_natAbs] at hm
    exact_mod_cast hm
  obtain ⟨zeros, -, hfifteen⟩ := exists_fifteen_mul hpos hless
  refine ⟨m.natAbs * 10 ^ zeros, e - zeros + 14, hfifteen, ?_⟩
  rw [abs_mul, abs_of_pos (zpow_pos (by norm_num : (0 : ℚ) < 10) e), add_sub_cancel_right,
    zpow_sub₀ (by norm_num), zpow_natCast, Nat.cast_mul, Nat.cast_natAbs, Int.cast_abs]
  push_cast
  field_simp

end Decimal

namespace Numeral

open Double

theorem size_nonneg (n : Numeral) : 0 ≤ n.size := by
  rw [size_eq]
  exact mul_nonneg (Nat.cast_nonneg _) (zpow_nonneg (by norm_num) _)

@[simp]
theorem abs_value (n : Numeral) : |n.value| = n.size := by
  rw [value]
  split
  · rw [abs_neg, abs_of_nonneg n.size_nonneg]
  · exact abs_of_nonneg n.size_nonneg

variable {cs : List Char} {n : Numeral}

/-- Zero is written as one digit. -/
theorem Written.exists_written_of_eq_zero (h : Written cs n) (hzero : n.value = 0) :
    ∃ n', Written n.toDouble.spelling n' ∧ n'.value = n.value := by
  obtain ⟨numerator, denominator, hpos, hdouble, hratio⟩ := exists_toDouble_eq h.digits_lt
  have hsize : n.size = 0 := by rw [← abs_value, hzero, abs_zero]
  rw [hsize, zero_mul] at hratio
  have hdouble' : n.toDouble = zero n.negative := by
    rw [hdouble, nearest_eq_zero _ hpos]
    rw [hratio]
    norm_num
  refine ⟨⟨false, [0], [], 0⟩, ?_, ?_⟩
  · rw [hdouble']
    exact ofChars?_eq_some_iff.mp rfl
  · rw [hzero, value, if_neg Bool.false_ne_true, size_eq_zero rfl]

/-- A number of at most fifteen significant digits is written as itself. -/
theorem Written.exists_written (h : Written cs n) (hshort : WithinPrecision n.value)
    (hlow : leastNormal ≤ |n.value|) (hhigh : |n.value| < overflow) :
    ∃ n', Written n.toDouble.spelling n' ∧ n'.value = n.value := by
  have hone := cast_unitsOfOne_pos
  have hne : n.value ≠ 0 := by
    intro hzero
    have hpos : 0 < leastNormal := zpow_pos two_pos _
    rw [hzero, abs_zero] at hlow
    exact absurd hlow (not_le.mpr hpos)
  obtain ⟨m, exponent, hm, hsize⟩ := hshort.exists_fifteen hne
  obtain ⟨numerator, denominator, hpos, hdouble, hratio⟩ := exists_toDouble_eq h.digits_lt
  have hunits : n.size * unitsOfOne = m * lastPlace exponent := by
    rw [← abs_value, hsize, lastPlace]
    ring
  rw [abs_value, ← mul_le_mul_iff_left₀ hone, leastNormal_mul_unitsOfOne, hunits] at hlow
  rw [abs_value, ← mul_lt_mul_iff_left₀ hone, overflow_mul_unitsOfOne, ← hratio] at hhigh
  have hfinite := nearestPlace_lt_infinityPlace hpos hhigh
  rw [hunits] at hratio
  have hsignificant := significant_nearestPlace_of_ge hm hpos hratio (le_exponent hm hlow)
  obtain ⟨n', hwritten, hnegative, hsize'⟩ := denotes_general hsignificant hm n.negative
  refine ⟨n', ?_, ?_⟩
  · rw [hdouble, spelling_nearest n.negative hm hfinite hsignificant]
    exact hwritten
  · rw [value, value, hnegative, hsize', ← hsize, abs_value]

/-- What a numeral denotes is read exactly if it is the value of a double. -/
theorem Written.toDouble_value_eq (h : Written cs n) {x : Double} (hfinite : x.isInfinite = false)
    (hx : x.value = n.value) (hhigh : |n.value| < overflow) :
    n.toDouble.isInfinite = false ∧ n.toDouble.value = n.value := by
  obtain ⟨hnearest, -⟩ := h.isNearest_toDouble
  have hread : n.toDouble.isInfinite = false := by
    rw [← Bool.not_eq_true, hnearest.isInfinite_iff, not_le]
    exact hhigh
  have hle := hnearest.nearest hread x hfinite
  rw [hx, sub_self, abs_zero, abs_nonpos_iff, sub_eq_zero] at hle
  exact ⟨hread, hle⟩

end Numeral

namespace Double

open Numeral

/-- A numeral with at most fifteen significant digits, within the range of normal
doubles, denotes what its double is written as.  The whole numbers below `10 ^ 15` are
doubles, are written without point, exponent or needless zeros, and are read back. -/
theorem fifteen_digits_are_kept :
    (∀ (token : String) (n : Numeral), Written token.toList n → WithinPrecision n.value →
      n.value = 0 ∨ leastNormal ≤ |n.value| ∧ |n.value| < overflow →
      ∃ x : Double, Datum.ofToken token = .number (.real x) ∧ IsNearest n.value x ∧
        ∃ n', Written x.spelling n' ∧ n'.value = n.value) ∧
    ∀ k : ℤ, |k| < 10 ^ 15 →
      (∃ x : Double, x.isInfinite = false ∧ x.value = k) ∧
      ∀ x : Double, x.isInfinite = false → x.value = k →
        String.ofList x.spelling = toString k ∧
        ∃ y : Double, Datum.ofToken (toString k) = .number (.real y) ∧ y.isInfinite = false ∧
          y.value = k := by
  constructor
  · intro token n hwritten hshort hrange
    refine ⟨n.toDouble, ?_, hwritten.isNearest_toDouble.1, ?_⟩
    · rw [Datum.ofToken, ofChars?_eq_some_iff.mpr hwritten]
    · rcases hrange with hzero | ⟨hlow, hhigh⟩
      · exact hwritten.exists_written_of_eq_zero hzero
      · exact hwritten.exists_written hshort hlow hhigh
  · intro k hk
    have hfits : k.natAbs < 2 * binade := by
      have hbinade : 10 ^ 15 < 2 * binade := by decide
      rw [Int.abs_eq_natAbs] at hk
      omega
    obtain ⟨x, hx⟩ := exists_value_eq hfits
    obtain ⟨n, hwritten, hvalue⟩ := exists_written_toString k
    have hhigh : |n.value| < overflow := by
      rw [hvalue]
      exact lt_trans (by exact_mod_cast hk) lt_overflow
    have hread := hwritten.toDouble_value_eq hx.1 (hx.2.trans hvalue.symm) hhigh
    refine ⟨⟨x, hx⟩, fun y hfinite hy => ⟨?_, n.toDouble, ?_, hread.1, hread.2.trans hvalue⟩⟩
    · rw [spelling_of_value_eq hfinite hy hk, String.ofList_toList]
    · rw [Datum.ofToken, ofChars?_eq_some_iff.mpr hwritten]

/-- A negative number with an exponent, and a negative whole number. -/
theorem fifteen_digits_are_kept_negative :
    (∃ (n n' : Numeral) (x : Double), Written "-1.50e3".toList n ∧ n.value = -1500 ∧
      WithinPrecision n.value ∧ leastNormal ≤ |n.value| ∧ |n.value| < overflow ∧
      Datum.ofToken "-1.50e3" = .number (.real x) ∧ Written x.spelling n' ∧ n'.value = -1500) ∧
    |(-42 : ℤ)| < 10 ^ 15 ∧
    ∃ x y : Double, x.isInfinite = false ∧ x.value = (-42 : ℤ) ∧
      String.ofList x.spelling = toString (-42 : ℤ) ∧ Datum.ofToken "-42" = .number (.real y) ∧
      y.value = (-42 : ℤ) := by
  constructor
  · have hwritten : Written "-1.50e3".toList ⟨true, [1], [5, 0], 3⟩ :=
      ofChars?_eq_some_iff.mp (by decide)
    have hvalue : Numeral.value ⟨true, [1], [5, 0], 3⟩ = -1500 := by
      norm_num [Numeral.value, Numeral.size, ofDigits]
    have hshort : WithinPrecision (-1500) := ⟨-15, 2, by decide, by norm_num⟩
    have hlow : leastNormal ≤ |-1500| := by
      have hone : leastNormal ≤ 1 := zpow_le_one_of_nonpos₀ one_le_two (by decide)
      rw [abs_neg, abs_of_pos (by norm_num)]
      linarith
    have hhigh : |-1500| < overflow := by
      rw [abs_neg, abs_of_pos (by norm_num)]
      exact lt_trans (by norm_num) lt_overflow
    rw [← hvalue] at hshort hlow hhigh
    obtain ⟨x, hread, -, n', hspelled, hsame⟩ :=
      fifteen_digits_are_kept.1 "-1.50e3" _ hwritten hshort (.inr ⟨hlow, hhigh⟩)
    exact ⟨_, n', x, hwritten, hvalue, hshort, hlow, hhigh, hread, hspelled, hsame.trans hvalue⟩
  · have hsmall : |(-42 : ℤ)| < 10 ^ 15 := by decide
    obtain ⟨⟨x, hfinite, hvalue⟩, hall⟩ := fifteen_digits_are_kept.2 (-42) hsmall
    obtain ⟨hspelled, y, hread, -, hsame⟩ := hall x hfinite hvalue
    exact ⟨hsmall, x, y, hfinite, hvalue, hspelled, hread, hsame⟩

end Double

end Lisplet
