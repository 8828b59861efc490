import Lisplet.Proofs.Double.Rounding

/-!
# Doubles as numbers

A finite double stands for a rational number, which is its units over those of one.  The
whole numbers that fit a significand are among these numbers.  Two sizes bound the range
in which rounding loses no more than the last bit: below the one a significand has fewer
bits, and from the other on everything is rounded to infinity.
-/

namespace Lisplet.Double

def value (x : Double) : ℚ := x.signedUnits / unitsOfOne

theorem value_eq_zero {x : Double} (hunits : x.units = 0) : x.value = 0 := by
  rw [value, signedUnits, hunits, Nat.cast_zero, neg_zero, ite_self, Int.cast_zero, zero_div]

/-- A double is away from a number of its sign by the difference of the sizes, and from
one of the other sign by their sum. -/
theorem abs_value_sub (x : Double) (negative : Bool) {size : ℚ} (hsize : 0 ≤ size) :
    |x.value - (if negative then -size else size)| * unitsOfOne =
      if x.negative = negative then |(magnitude x.place : ℚ) - size * unitsOfOne|
      else magnitude x.place + size * unitsOfOne := by
  have hone := cast_unitsOfOne_pos
  have hsum : (0 : ℚ) ≤ magnitude x.place + size * unitsOfOne :=
    add_nonneg (Nat.cast_nonneg _) (mul_nonneg hsize hone.le)
  rw [← abs_of_pos hone, ← abs_mul, abs_of_pos hone, sub_mul, value, div_mul_cancel₀ _ hone.ne',
    signedUnits, units_eq_magnitude]
  cases x.negative <;> cases negative <;>
    simp only [Bool.false_eq_true, if_true, if_false, reduceCtorEq, Int.cast_neg,
      Int.cast_natCast, neg_mul, sub_neg_eq_add]
  · exact abs_of_nonneg hsum
  · rw [← neg_add', abs_neg, abs_of_nonneg hsum]
  · rw [neg_add_eq_sub, abs_sub_comm]

/-! ## The ends of the range -/

theorem unitsOfOne_eq : unitsOfOne = 2 ^ 1074 := by
  decide +kernel

/-- The smallest size with all bits of a significand. -/
def leastNormal : ℚ := 2 ^ (-1022 : ℤ)

theorem leastNormal_mul_unitsOfOne : leastNormal * unitsOfOne = binade := by
  have hone : (unitsOfOne : ℚ) = 2 ^ (1074 : ℤ) := by
    rw [unitsOfOne_eq, Nat.cast_pow, Nat.cast_ofNat]
    exact (zpow_natCast 2 1074).symm
  have hbinade : (binade : ℚ) = 2 ^ (52 : ℤ) := (Nat.cast_pow 2 52).trans (zpow_natCast 2 52).symm
  rw [leastNormal, hone, hbinade, ← zpow_add₀ two_ne_zero]
  rfl

/-- The size from which on numbers are rounded to infinity. -/
def overflow : ℚ := 2 ^ 1024 - 2 ^ 970

theorem overflow_mul_unitsOfOne :
    overflow * unitsOfOne = (2 * binade - 1 / 2) * 2 ^ largestScale := by
  have hone : (unitsOfOne : ℚ) = 2 ^ 1074 := by
    rw [unitsOfOne_eq, Nat.cast_pow, Nat.cast_ofNat]
  have hbinade : (binade : ℚ) = 2 ^ 52 := Nat.cast_pow 2 52
  have hhigh : (2 : ℚ) ^ 1024 * 2 ^ 1074 = 2 * 2 ^ 52 * 2 ^ 2045 := by
    rw [← pow_add, ← pow_succ', ← pow_add]
  have hlow : (2 : ℚ) ^ 970 * 2 ^ 1074 * 2 = 2 ^ 2045 := by
    rw [← pow_add, ← pow_succ]
  rw [overflow, hone, hbinade, largestScale, sub_mul, sub_mul, hhigh, one_div_mul_eq_div,
    eq_div_of_mul_eq two_ne_zero hlow]

theorem lt_overflow : 10 ^ 15 < overflow := by
  have hsmall : (10 : ℚ) ^ 15 < 2 ^ 970 :=
    calc (10 : ℚ) ^ 15
      _ < 2 ^ 50 := by norm_num
      _ ≤ 2 ^ 970 := pow_le_pow_right₀ one_le_two (by omega)
  rw [overflow, lt_sub_iff_add_lt]
  calc (10 : ℚ) ^ 15 + 2 ^ 970
    _ < 2 ^ 970 + 2 ^ 970 := add_lt_add_left hsmall _
    _ = 2 ^ 971 := by rw [← two_mul, ← pow_succ']
    _ ≤ 2 ^ 1024 := pow_le_pow_right₀ one_le_two (by omega)

theorem overflow_le : overflow ≤ 10 ^ 310 := by
  have hbits : (2 : ℚ) ^ 93 ≤ 10 ^ 28 := by norm_num
  have hprod : (2 : ℚ) * (2 ^ 93) ^ 11 ≤ 10 * (10 ^ 28) ^ 11 := by gcongr; norm_num
  calc overflow
    _ ≤ 2 ^ 1024 := sub_le_self _ (pow_nonneg zero_le_two _)
    _ = 2 * (2 ^ 93) ^ 11 := by rw [← pow_mul, ← pow_succ']
    _ ≤ 10 * (10 ^ 28) ^ 11 := hprod
    _ = 10 ^ 309 := by rw [← pow_mul, ← pow_succ']
    _ ≤ 10 ^ 310 := pow_le_pow_right₀ (by norm_num) (by omega)

/-! ## Whole numbers -/

theorem exists_shift {n : Nat} (hpos : 0 < n) (hless : n < 2 * binade) :
    ∃ shift ≤ fractionBits, binade ≤ n * 2 ^ shift ∧ n * 2 ^ shift < 2 * binade := by
  have hlog : n.log2 < fractionBits + 1 := (Nat.log2_lt hpos.ne').mpr (by
    rwa [pow_succ'])
  have hsum : n.log2 + (fractionBits - n.log2) = fractionBits := by omega
  have hpow : 2 ^ n.log2 * 2 ^ (fractionBits - n.log2) = binade := by
    rw [← pow_add, hsum]
    rfl
  refine ⟨fractionBits - n.log2, Nat.sub_le _ _, ?_, ?_⟩
  · rw [← hpow]
    exact Nat.mul_le_mul_right _ (Nat.log2_self_le hpos.ne')
  · rw [← hpow, ← Nat.mul_assoc, ← pow_succ']
    exact Nat.mul_lt_mul_of_pos_right Nat.lt_log2_self (Nat.two_pow_pos _)

/-- Every whole number that fits a significand is a double. -/
theorem exists_magnitude_eq {n : Nat} (hless : n < 2 * binade) :
    ∃ place < infinityPlace, magnitude place = n * unitsOfOne := by
  rcases Nat.eq_zero_or_pos n with rfl | hpos
  · refine ⟨0, by decide, ?_⟩
    rw [magnitude_of_lt binade_pos, Nat.zero_mul]
  · obtain ⟨shift, hshift, hlow, hhigh⟩ := exists_shift hpos hless
    rw [fractionBits] at hshift
    obtain ⟨scale, hscale⟩ : ∃ scale, shift + scale = 1074 := ⟨1074 - shift, by omega⟩
    refine ⟨scale * binade + n * 2 ^ shift, ?_, ?_⟩
    · have hmul : scale * binade ≤ 1074 * binade := Nat.mul_le_mul_right _ (by omega)
      rw [infinityPlace]
      omega
    · rw [magnitude_add _ _ (.inr hlow) hhigh.le, unitsOfOne_eq, ← hscale, pow_add, Nat.mul_assoc]
      rfl

theorem value_eq_iff {x : Double} {k : ℤ} :
    x.value = k ↔ x.signedUnits = k * unitsOfOne := by
  rw [value, div_eq_iff cast_unitsOfOne_pos.ne', ← Int.cast_natCast unitsOfOne, ← Int.cast_mul,
    Int.cast_inj]

theorem exists_value_eq {k : ℤ} (hk : k.natAbs < 2 * binade) :
    ∃ x : Double, x.isInfinite = false ∧ x.value = k := by
  obtain ⟨place, hplace, hmagnitude⟩ := exists_magnitude_eq hk
  refine ⟨⟨decide (k < 0), place, hplace.le⟩, beq_false_of_ne hplace.ne, value_eq_iff.mpr ?_⟩
  rw [signedUnits, units_eq_magnitude, hmagnitude]
  dsimp only
  split
  · next hnegative =>
      rw [decide_eq_true_eq] at hnegative
      rw [Nat.cast_mul, ← neg_mul]
      congr 1
      omega
  · next hnegative =>
      rw [decide_eq_true_eq] at hnegative
      rw [Nat.cast_mul]
      congr 1
      omega

theorem units_of_value_eq {x : Double} {k : ℤ} (hx : x.value = k) :
    x.units = k.natAbs * unitsOfOne := by
  have habs := congrArg Int.natAbs (value_eq_iff.mp hx)
  rw [Int.natAbs_mul, Int.natAbs_natCast, signedUnits] at habs
  split at habs
  · rwa [Int.natAbs_neg, Int.natAbs_natCast] at habs
  · rwa [Int.natAbs_natCast] at habs

theorem negative_of_value_eq {x : Double} {k : ℤ} (hx : x.value = k) (hne : k ≠ 0) :
    x.negative = decide (k < 0) := by
  have hone : (0 : ℤ) < unitsOfOne := Nat.cast_pos.mpr unitsOfOne_pos
  have hunits := value_eq_iff.mp hx
  rw [signedUnits] at hunits
  symm
  split at hunits
  · next hnegative =>
      rw [hnegative, decide_eq_true_eq]
      have hprod : k * unitsOfOne ≤ 0 := by omega
      exact lt_of_le_of_ne (nonpos_of_mul_nonpos_left hprod hone) hne
  · next hnegative =>
      rw [Bool.eq_false_of_not_eq_true hnegative, decide_eq_false_iff_not, not_lt]
      have hprod : 0 ≤ k * unitsOfOne := by omega
      exact nonneg_of_mul_nonneg_left hprod hone

end Lisplet.Double
