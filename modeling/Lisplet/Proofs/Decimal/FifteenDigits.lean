import Lisplet.Proofs.Decimal.Significant

/-!
# Fifteen digits come back

A size is written with fifteen digits, and the double nearest to these digits is read.
That double is written with the same digits again, except at the very end of the range,
where the nearest double is infinity.  Three ranges need different arguments.  Where the
last of the fifteen digits is worth many units, rounding to a double moves a size by
little of it.  Where it is worth less than one unit the size itself is what is read.
The one exponent between them has a single doubtful point, its smallest digits, which is
decided by a computation.
-/

namespace Lisplet.Decimal

open Double

/-! ## The ends of the range -/

/-- Around the exponent at which the last digit is worth between one and ten units. -/
theorem lastPlace_bottom :
    1 < lastPlace (-309) ∧ lastPlace (-309) < 10 ∧ 10 ^ 15 * lastPlace (-309) < 2 * binade ∧
      202402253307311 - 1 / 2 < 10 ^ 14 * lastPlace (-309) ∧
      10 ^ 14 * lastPlace (-309) ≤ 202402253307311 := by
  obtain ⟨shift, hshift⟩ : ∃ shift : Nat, shift = 323 := ⟨_, rfl⟩
  obtain ⟨power, hpower⟩ : ∃ power, power = Nat.pow 10 shift := ⟨_, rfl⟩
  have hlast : lastPlace (-309) = unitsOfOne / power := by
    rw [hpower]
    exact lastPlace_of_eq_sub (by omega)
  have hone : 0 < power ∧ power < unitsOfOne ∧ unitsOfOne < 10 * power := by
    rw [hpower, hshift]
    decide +kernel
  have hsmall : 10 ^ 15 * unitsOfOne < 2 * binade * power := by
    rw [hpower, hshift]
    decide +kernel
  have hpoint : 404804506614621 * power < 2 * (10 ^ 14 * unitsOfOne) ∧
      10 ^ 14 * unitsOfOne ≤ 202402253307311 * power := by
    rw [hpower, hshift]
    decide +kernel
  have hpos : (0 : ℚ) < power := Nat.cast_pos.mpr hone.1
  rw [hlast, ← mul_div_assoc, ← mul_div_assoc]
  refine ⟨?_, ?_, ?_, ?_, ?_⟩
  · rw [one_lt_div hpos]
    exact_mod_cast hone.2.1
  · rw [div_lt_iff₀ hpos]
    exact_mod_cast hone.2.2
  · rw [div_lt_iff₀ hpos]
    exact_mod_cast hsmall
  · rw [lt_div_iff₀ hpos]
    have hlow' : (404804506614621 : ℚ) * power < 2 * (10 ^ 14 * unitsOfOne) := by
      exact_mod_cast hpoint.1
    linarith
  · rw [div_le_iff₀ hpos]
    exact_mod_cast hpoint.2

/-- Around the largest exponent: what the fifth size below infinity is written with, and
halfway from the largest finite size to the next power of two. -/
theorem lastPlace_top :
    (2 * binade - 5) * 2 ^ largestScale + lastPlace 308 / 2 < 179769313486232 * lastPlace 308 ∧
      179769313486231 * lastPlace 308 < (2 * binade - 1 / 2) * 2 ^ largestScale ∧
      10 ^ 14 * lastPlace 308 < (2 * binade - 1 / 2) * 2 ^ largestScale ∧
      2 * binade * 2 ^ largestScale < (10 ^ 15 - 10) * lastPlace 308 := by
  obtain ⟨shift, hshift⟩ : ∃ shift : Nat, shift = 294 := ⟨_, rfl⟩
  obtain ⟨last, hlast⟩ : ∃ last, last = unitsOfOne * Nat.pow 10 shift := ⟨_, rfl⟩
  obtain ⟨step, hstep⟩ : ∃ step, step = Nat.pow 2 largestScale := ⟨_, rfl⟩
  have hcastLast : lastPlace 308 = last := by
    rw [hlast]
    exact lastPlace_of_eq_add (by omega)
  have hcastStep : (2 : ℚ) ^ largestScale = step := by
    rw [hstep]
    exact (Nat.cast_pow 2 largestScale).symm
  have hlow : 2 * (2 * binade * step) + last < 359538626972464 * last + 10 * step := by
    rw [hlast, hstep, hshift]
    decide +kernel
  have hhigh : 359538626972462 * last + step < 4 * (binade * step) := by
    rw [hlast, hstep, hshift]
    decide +kernel
  have hone : 2 * (10 ^ 14 * last) + step < 4 * (binade * step) := by
    rw [hlast, hstep, hshift]
    decide +kernel
  have hten : 2 * binade * step + 10 * last < 10 ^ 15 * last := by
    rw [hlast, hstep, hshift]
    decide +kernel
  have hlow' : 2 * (2 * binade * step) + last < (359538626972464 * last + 10 * step : ℚ) := by
    exact_mod_cast hlow
  have hhigh' : 359538626972462 * last + step < (4 * (binade * step) : ℚ) := by
    exact_mod_cast hhigh
  have hone' : 2 * (10 ^ 14 * last) + step < (4 * (binade * step) : ℚ) := by exact_mod_cast hone
  have hten' : 2 * binade * step + 10 * last < (10 ^ 15 * last : ℚ) := by exact_mod_cast hten
  rw [hcastLast, hcastStep]
  refine ⟨?_, ?_, ?_, ?_⟩ <;> linarith

/-! ## Reading the digits of a size -/

section Digits

variable {units m numerator denominator : Nat} {exponent : ℤ}

/-- How far the digits of a size are away from it. -/
theorem abs_mul_lastPlace_sub_le
    (hnear : |(m : ℚ) - units / lastPlace exponent| ≤ 1 / 2) :
    |(m : ℚ) * lastPlace exponent - units| ≤ lastPlace exponent / 2 := by
  have hlast := lastPlace_pos exponent
  calc
    |(m : ℚ) * lastPlace exponent - units|
        = |((m : ℚ) - units / lastPlace exponent) * lastPlace exponent| := by
          rw [sub_mul, div_mul_cancel₀ _ hlast.ne']
    _ = |(m : ℚ) - units / lastPlace exponent| * lastPlace exponent := by
          rw [abs_mul, abs_of_pos hlast]
    _ ≤ 1 / 2 * lastPlace exponent := mul_le_mul_of_nonneg_right hnear hlast.le
    _ = lastPlace exponent / 2 := by ring

/-- Up to the fifth place before infinity, the digits of a size are not read as
infinity. -/
theorem mul_lastPlace_lt (hm : Fifteen m)
    (hnear : |(m : ℚ) * lastPlace exponent - units| ≤ lastPlace exponent / 2)
    (hend : (units : ℚ) ≤ (2 * binade - 5) * 2 ^ largestScale) :
    (m : ℚ) * lastPlace exponent < (2 * binade - 1 / 2) * 2 ^ largestScale := by
  obtain ⟨hfifth, hlargest, hbelow, hbeyond⟩ := lastPlace_top
  have hlast := lastPlace_pos exponent
  have hstep : (0 : ℚ) < 2 ^ largestScale := by positivity
  have hlow : (10 : ℚ) ^ 14 ≤ m := by exact_mod_cast hm.1
  have hhigh : (m : ℚ) ≤ 10 ^ 15 := by exact_mod_cast hm.2.le
  have hlow' := mul_le_mul_of_nonneg_right hlow hlast.le
  have hhigh' := mul_le_mul_of_nonneg_right hhigh hlast.le
  rw [abs_le] at hnear
  rcases lt_trichotomy exponent 308 with hless | rfl | hmore
  · have htenth : 10 * lastPlace exponent ≤ lastPlace 308 := by
      rw [← lastPlace_add_one]
      exact lastPlace_mono hless
    linarith
  · have hsmall : (m : ℚ) * lastPlace 308 < 179769313486232 * lastPlace 308 := by linarith
    have hsmall' : (m : ℚ) < 179769313486232 := lt_of_mul_lt_mul_right hsmall hlast.le
    have hsmallNat : m < 179769313486232 := by exact_mod_cast hsmall'
    have hdigits : (m : ℚ) ≤ 179769313486231 := by exact_mod_cast Nat.le_of_lt_succ hsmallNat
    have hdigits' := mul_le_mul_of_nonneg_right hdigits hlast.le
    linarith
  · have hten : 10 * lastPlace 308 ≤ lastPlace exponent := by
      rw [← lastPlace_add_one]
      exact lastPlace_mono hmore
    linarith

/-- A size has the digits that it is near to, with the distances in units. -/
theorem significant_eq_of_abs_lt (hm : Fifteen m)
    (hnear : |(units : ℚ) - m * lastPlace exponent| < lastPlace exponent / 2)
    (hlow : (units : ℚ) < 10 ^ 14 * lastPlace exponent →
      |(units : ℚ) - m * lastPlace exponent| < lastPlace exponent / 20) :
    significant units = (digits m, exponent) := by
  have hlast := lastPlace_pos exponent
  have hdistance : |(m : ℚ) - units / lastPlace exponent| =
      |(units : ℚ) - m * lastPlace exponent| / lastPlace exponent := by
    rw [← abs_of_pos hlast, ← abs_div, abs_of_pos hlast, sub_div,
      mul_div_cancel_right₀ _ hlast.ne', abs_sub_comm]
  apply significant_eq hm
  · rw [hdistance, div_lt_iff₀ hlast]
    linarith
  · intro hless
    rw [div_lt_iff₀ hlast] at hless
    have hnearer := hlow hless
    rw [hdistance, div_lt_iff₀ hlast]
    linarith

/-- Where the last digit is worth more than ten units, the double nearest to the digits
is so near that it has the same digits. -/
theorem significant_nearestPlace_of_ge (hm : Fifteen m) (hpos : 0 < denominator)
    (hratio : (numerator : ℚ) / denominator = m * lastPlace exponent)
    (hlarge : -308 ≤ exponent) :
    significant (magnitude (nearestPlace numerator denominator)) = (digits m, exponent) := by
  have hten : 10 < lastPlace exponent := by
    have hone := lastPlace_bottom.1
    have hstep := lastPlace_add_one (-309)
    have hmono := lastPlace_mono hlarge
    norm_num at hstep
    linarith
  have hbinade : (binade : ℚ) = 4503599627370496 := by norm_num [binade, fractionBits]
  have hhigh : (m : ℚ) ≤ 10 ^ 15 := by exact_mod_cast hm.2.le
  have hhigh' := mul_le_mul_of_nonneg_right hhigh (lastPlace_pos exponent).le
  have hnear := abs_magnitude_nearestPlace_sub_le_or numerator hpos
  rw [hratio, hbinade] at hnear
  apply significant_eq_of_abs_lt hm
  · rcases hnear with hhalf | hpart
    · linarith
    · linarith
  · intro hless
    rcases hnear with hhalf | hpart
    · linarith
    · have hlower := (abs_le.mp hpart).1
      linarith

/-- Where the last digit is worth less than a unit, the size itself is read. -/
theorem magnitude_nearestPlace_of_le (hm : Fifteen m) (hpos : 0 < denominator)
    (hratio : (numerator : ℚ) / denominator = m * lastPlace exponent)
    (hnear : |(m : ℚ) * lastPlace exponent - units| ≤ lastPlace exponent / 2)
    (hsmall : exponent ≤ -310) :
    magnitude (nearestPlace numerator denominator) = units := by
  obtain ⟨-, hten, hwhole, -, -⟩ := lastPlace_bottom
  have htenth : 10 * lastPlace exponent ≤ lastPlace (-309) := by
    rw [← lastPlace_add_one]
    exact lastPlace_mono (by omega)
  have hhigh : (m : ℚ) ≤ 10 ^ 15 := by exact_mod_cast hm.2.le
  have hhigh' := mul_le_mul_of_nonneg_right hhigh (lastPlace_pos exponent).le
  apply magnitude_nearestPlace_of_lt hpos
  · rw [hratio]
    linarith
  · rw [hratio, abs_sub_comm]
    linarith

/-- Where the last digit is worth some units, the smallest digits are read as a larger
size. -/
theorem significant_nearestPlace_of_eq (hm : Fifteen m) (hpos : 0 < denominator)
    (hratio : (numerator : ℚ) / denominator = m * lastPlace (-309)) :
    significant (magnitude (nearestPlace numerator denominator)) = (digits m, -309) := by
  obtain ⟨hone, -, hwhole, hpointLow, hpointHigh⟩ := lastPlace_bottom
  have hlast := lastPlace_pos (-309)
  have hhigh : (m : ℚ) ≤ 10 ^ 15 := by exact_mod_cast hm.2.le
  have hhigh' := mul_le_mul_of_nonneg_right hhigh hlast.le
  have hsmall : (numerator : ℚ) / denominator < 2 * binade := by
    rw [hratio]
    linarith
  have hnear := abs_magnitude_nearestPlace_sub_le numerator hpos
  rw [scaleOf_of_lt hsmall, pow_zero, hratio] at hnear
  apply significant_eq_of_abs_lt hm
  · linarith
  · intro hless
    exfalso
    have hlower := (abs_le.mp hnear).1
    have hfirst : (m : ℚ) * lastPlace (-309) < (10 ^ 14 + 1) * lastPlace (-309) := by linarith
    have hfirst' : (m : ℚ) < 10 ^ 14 + 1 := lt_of_mul_lt_mul_right hfirst hlast.le
    have hfirstNat : m < 10 ^ 14 + 1 := by exact_mod_cast hfirst'
    obtain rfl : m = 10 ^ 14 := Nat.le_antisymm (Nat.le_of_lt_succ hfirstNat) hm.1
    rw [Nat.cast_pow, Nat.cast_ofNat] at hratio
    have hpoint : magnitude (nearestPlace numerator denominator) = 202402253307311 := by
      apply magnitude_nearestPlace_of_lt hpos hsmall
      rw [hratio, abs_lt]
      push_cast
      constructor <;> linarith
    rw [hpoint] at hless
    push_cast at hless
    linarith

/-- The double nearest to the digits of a size has the same digits. -/
theorem significant_nearestPlace (hsignificant : significant units = (digits m, exponent))
    (hm : Fifteen m) (hnear : |(m : ℚ) - units / lastPlace exponent| ≤ 1 / 2)
    (hpos : 0 < denominator)
    (hratio : (numerator : ℚ) / denominator = m * lastPlace exponent) :
    significant (magnitude (nearestPlace numerator denominator)) = (digits m, exponent) := by
  rcases lt_or_ge exponent (-309) with hless | hmore
  · rw [magnitude_nearestPlace_of_le hm hpos hratio (abs_mul_lastPlace_sub_le hnear) (by omega),
      hsignificant]
  · rcases eq_or_lt_of_le hmore with rfl | hmore
    · exact significant_nearestPlace_of_eq hm hpos hratio
    · exact significant_nearestPlace_of_ge hm hpos hratio (by omega)

end Digits

end Lisplet.Decimal
