import Mathlib.Algebra.Order.Field.Power
import Mathlib.Algebra.Order.Field.Rat
import Mathlib.Tactic.FieldSimp
import Mathlib.Tactic.Linarith
import Mathlib.Tactic.NormNum
import Mathlib.Tactic.Positivity
import Mathlib.Tactic.Ring
import Lisplet.Decimal.General
import Lisplet.Proofs.Double.Rounding

/-!
# Fifteen digits

A size is written with the fifteen digits that are nearest to it.  They are found from
the exponent of the leading digit; nines that round up move it.  This file says when a
size is written with given digits, so that the digits of two sizes can be compared.
-/

namespace Lisplet.Decimal

open Double

/-- The value of the last of fifteen digits, in units, when the first one has this
exponent. -/
def lastPlace (exponent : ℤ) : ℚ := unitsOfOne * 10 ^ (exponent - 14)

theorem lastPlace_pos (exponent : ℤ) : 0 < lastPlace exponent :=
  mul_pos cast_unitsOfOne_pos (zpow_pos (by norm_num) _)

theorem lastPlace_add_natCast (exponent : ℤ) (steps : Nat) :
    lastPlace (exponent + steps) = 10 ^ steps * lastPlace exponent := by
  have hsum : exponent + steps - 14 = exponent - 14 + steps := by ring
  rw [lastPlace, lastPlace, hsum, zpow_add₀ (by norm_num), zpow_natCast]
  ring

theorem lastPlace_add_one (exponent : ℤ) :
    lastPlace (exponent + 1) = 10 * lastPlace exponent := by
  have hstep := lastPlace_add_natCast exponent 1
  rwa [Nat.cast_one, pow_one] at hstep

/-- The value of the first of fifteen digits. -/
theorem mul_lastPlace (exponent : ℤ) :
    10 ^ 14 * lastPlace exponent = unitsOfOne * 10 ^ exponent := by
  have hpow : (10 : ℚ) ^ exponent = 10 ^ (exponent - 14) * 10 ^ 14 := by
    rw [← zpow_natCast, ← zpow_add₀ (by norm_num)]
    congr 1
    push_cast
    ring
  rw [lastPlace, hpow]
  ring

theorem lastPlace_mono {low high : ℤ} (hle : low ≤ high) : lastPlace low ≤ lastPlace high :=
  mul_le_mul_of_nonneg_left (zpow_le_zpow_right₀ (by norm_num) (by omega)) cast_unitsOfOne_pos.le

theorem lt_of_lastPlace_lt {low high : ℤ} (hlt : lastPlace low < lastPlace high) :
    low < high := by
  by_contra hle
  exact absurd (lastPlace_mono (not_lt.mp hle)) (not_le.mpr hlt)

/-! ## The exponent of the leading digit -/

/-- The steps that a size below one takes to reach it. -/
theorem exists_stepsToOne_eq (most units : Nat) (hsmall : units < unitsOfOne)
    (hreach : unitsOfOne ≤ units * 10 ^ most) :
    ∃ steps, stepsToOne most units = steps + 1 ∧ units * 10 ^ steps < unitsOfOne ∧
      unitsOfOne ≤ units * 10 ^ (steps + 1) := by
  induction most generalizing units with
  | zero =>
      rw [pow_zero, Nat.mul_one] at hreach
      exact absurd hreach (Nat.not_le_of_lt hsmall)
  | succ most ih =>
      rw [stepsToOne, if_neg (Nat.not_le_of_lt hsmall)]
      by_cases hone : unitsOfOne ≤ units * 10
      · refine ⟨0, ?_, ?_, ?_⟩
        · cases most with
          | zero => rfl
          | succ most => rw [stepsToOne, if_pos hone]
        · rw [pow_zero, Nat.mul_one]
          exact hsmall
        · rw [Nat.zero_add, pow_one]
          exact hone
      · rw [pow_succ', ← Nat.mul_assoc] at hreach
        obtain ⟨steps, hsteps, hless, hmore⟩ := ih (units * 10) (Nat.lt_of_not_le hone) hreach
        refine ⟨steps + 1, by rw [hsteps], ?_, ?_⟩
        · rw [pow_succ', ← Nat.mul_assoc]
          exact hless
        · rw [pow_succ', ← Nat.mul_assoc]
          exact hmore

/-- A single unit is more than the smallest power of ten that is looked at. -/
theorem unitsOfOne_le_pow : unitsOfOne ≤ 10 ^ 324 := by
  decide +kernel

/-- The digits of a whole number are as many as its size calls for. -/
theorem pow_length_digits {n : Nat} (hpos : 0 < n) :
    10 ^ ((digits n).length - 1) ≤ n ∧ n < 10 ^ (digits n).length := by
  have hlength : 0 < (digits n).length := Nat.length_toDigits_pos
  constructor
  · by_cases hone : (digits n).length = 1
    · rw [hone]
      exact hpos
    · have hmore : 0 < (digits n).length - 1 := by omega
      rw [← Nat.not_lt, ← Nat.length_toDigits_le_iff (by decide) hmore]
      rw [digits] at hlength ⊢
      omega
  · exact (Nat.length_toDigits_le_iff (by decide) hlength).mp (Nat.le_refl _)

theorem leadingExponent_of_le {units : Nat} (hone : unitsOfOne ≤ units) :
    unitsOfOne * (10 : ℚ) ^ leadingExponent units ≤ units ∧
      (units : ℚ) < unitsOfOne * 10 ^ (leadingExponent units + 1) := by
  obtain ⟨hlow, hhigh⟩ := pow_length_digits (Nat.div_pos hone unitsOfOne_pos)
  have hlength : 0 < (digits (units / unitsOfOne)).length := Nat.length_toDigits_pos
  have hexponent : leadingExponent units =
      (((digits (units / unitsOfOne)).length - 1 : ℕ) : ℤ) := by
    rw [leadingExponent, if_pos hone]
    omega
  have hsucc : leadingExponent units + 1 = ((digits (units / unitsOfOne)).length : ℤ) := by
    rw [hexponent]
    omega
  rw [hsucc, hexponent, zpow_natCast, zpow_natCast]
  constructor
  · have hmul := (Nat.mul_le_mul_left unitsOfOne hlow).trans (Nat.mul_div_le units unitsOfOne)
    exact_mod_cast hmul
  · have hmul := (Nat.lt_mul_div_succ units unitsOfOne_pos).trans_le
      (Nat.mul_le_mul_left unitsOfOne hhigh)
    exact_mod_cast hmul

theorem leadingExponent_of_lt {units : Nat} (hpos : 0 < units) (hone : units < unitsOfOne) :
    unitsOfOne * (10 : ℚ) ^ leadingExponent units ≤ units ∧
      (units : ℚ) < unitsOfOne * 10 ^ (leadingExponent units + 1) := by
  obtain ⟨steps, hsteps, hless, hmore⟩ := exists_stepsToOne_eq 324 units hone
    (unitsOfOne_le_pow.trans (Nat.le_mul_of_pos_left _ hpos))
  have hexponent : leadingExponent units = -((steps + 1 : ℕ) : ℤ) := by
    rw [leadingExponent, if_neg (Nat.not_le_of_lt hone), hsteps]
  have hsucc : leadingExponent units + 1 = -(steps : ℤ) := by
    rw [hexponent]
    omega
  rw [hsucc, hexponent, zpow_neg, zpow_neg, zpow_natCast, zpow_natCast, ← div_eq_mul_inv,
    ← div_eq_mul_inv]
  constructor
  · rw [div_le_iff₀ (by positivity)]
    exact_mod_cast hmore
  · rw [lt_div_iff₀ (by positivity)]
    exact_mod_cast hless

theorem leadingExponent_spec {units : Nat} (hpos : 0 < units) :
    10 ^ 14 * lastPlace (leadingExponent units) ≤ units ∧
      (units : ℚ) < 10 ^ 15 * lastPlace (leadingExponent units) := by
  have hbounds : unitsOfOne * (10 : ℚ) ^ leadingExponent units ≤ units ∧
      (units : ℚ) < unitsOfOne * 10 ^ (leadingExponent units + 1) := by
    rcases Nat.lt_or_ge units unitsOfOne with hless | hmore
    · exact leadingExponent_of_lt hpos hless
    · exact leadingExponent_of_le hmore
  rw [← mul_lastPlace, ← mul_lastPlace, lastPlace_add_one] at hbounds
  exact ⟨hbounds.1, hbounds.2.trans_eq (by ring)⟩

/-- The exponent of the leading digit is the only one that fits. -/
theorem leadingExponent_eq {units : Nat} {exponent : ℤ}
    (hlow : 10 ^ 14 * lastPlace exponent ≤ units)
    (hhigh : (units : ℚ) < 10 ^ 15 * lastPlace exponent) : leadingExponent units = exponent := by
  have hunits : (0 : ℚ) < units := lt_of_lt_of_le (mul_pos (by norm_num) (lastPlace_pos _)) hlow
  obtain ⟨hlow', hhigh'⟩ := leadingExponent_spec (Nat.cast_pos.mp hunits)
  have hless : lastPlace (leadingExponent units) < lastPlace (exponent + 1) := by
    rw [lastPlace_add_one]
    linarith
  have hmore : lastPlace exponent < lastPlace (leadingExponent units + 1) := by
    rw [lastPlace_add_one]
    linarith
  have hless' := lt_of_lastPlace_lt hless
  have hmore' := lt_of_lastPlace_lt hmore
  omega

/-! ## Rounding to fifteen digits -/

theorem lastPlace_of_eq_sub {exponent : ℤ} {shift : Nat} (hexponent : exponent = 14 - shift) :
    lastPlace exponent = unitsOfOne / (Nat.pow 10 shift : ℕ) := by
  have hneg : exponent - 14 = -(shift : ℤ) := by omega
  rw [lastPlace, hneg, zpow_neg, zpow_natCast, ← div_eq_mul_inv]
  exact_mod_cast rfl

theorem lastPlace_of_eq_add {exponent : ℤ} {shift : Nat} (hexponent : exponent = 14 + shift) :
    lastPlace exponent = (unitsOfOne * Nat.pow 10 shift : ℕ) := by
  rw [lastPlace, hexponent, add_sub_cancel_left, zpow_natCast]
  exact_mod_cast rfl

/-- The fraction whose rounding gives the digits is the size in values of the last
digit. -/
theorem exists_roundedDigits_eq (units : Nat) (exponent : ℤ) :
    ∃ numerator denominator, 0 < denominator ∧
      roundedDigits units exponent = roundHalfEven numerator denominator ∧
      (numerator : ℚ) / denominator = units / lastPlace exponent := by
  have hprecision : (precision : ℤ) - 1 - exponent = 14 - exponent := rfl
  rw [roundedDigits, hprecision]
  by_cases hshift : 0 ≤ 14 - exponent
  · rw [if_pos hshift]
    refine ⟨_, _, unitsOfOne_pos, rfl, ?_⟩
    obtain ⟨shift, hshift⟩ := Int.eq_ofNat_of_zero_le hshift
    rw [hshift, lastPlace_of_eq_sub (by omega : exponent = 14 - shift), Int.toNat_natCast,
      div_div_eq_mul_div, Nat.cast_mul]
  · rw [if_neg hshift]
    refine ⟨_, _, Nat.mul_pos unitsOfOne_pos (Nat.pow_pos (by decide)), rfl, ?_⟩
    obtain ⟨shift, hshift⟩ : ∃ shift : Nat, exponent = 14 + shift :=
      ⟨(14 - exponent).natAbs, by omega⟩
    have habs : (14 - exponent).natAbs = shift := by omega
    rw [habs, lastPlace_of_eq_add hshift]
    rfl

theorem abs_roundedDigits_sub_le (units : Nat) (exponent : ℤ) :
    |(roundedDigits units exponent : ℚ) - units / lastPlace exponent| ≤ 1 / 2 := by
  obtain ⟨numerator, denominator, hpos, hrounded, hratio⟩ :=
    exists_roundedDigits_eq units exponent
  rw [hrounded, ← hratio]
  exact abs_roundHalfEven_sub_le numerator hpos

theorem roundedDigits_eq_of_abs_lt {units k : Nat} {exponent : ℤ}
    (hnear : |(k : ℚ) - units / lastPlace exponent| < 1 / 2) :
    roundedDigits units exponent = k := by
  obtain ⟨numerator, denominator, hpos, hrounded, hratio⟩ :=
    exists_roundedDigits_eq units exponent
  rw [← hratio] at hnear
  rw [hrounded]
  exact roundHalfEven_eq_of_abs_lt hpos hnear

theorem pow_precision : Nat.pow 10 precision = 10 ^ 15 := rfl

/-- Fifteen digits without a zero at the front. -/
def Fifteen (m : Nat) : Prop := 10 ^ 14 ≤ m ∧ m < 10 ^ 15

/-- The digits of a size are the fifteen nearest to it. -/
theorem exists_significant_eq {units : Nat} (hpos : 0 < units) :
    ∃ (m : Nat) (exponent : ℤ), significant units = (digits m, exponent) ∧ Fifteen m ∧
      |(m : ℚ) - units / lastPlace exponent| ≤ 1 / 2 := by
  obtain ⟨hlow, hhigh⟩ := leadingExponent_spec hpos
  have hnear := abs_roundedDigits_sub_le units (leadingExponent units)
  have hlast := lastPlace_pos (leadingExponent units)
  rw [← le_div_iff₀ hlast] at hlow
  rw [← div_lt_iff₀ hlast] at hhigh
  rw [significant]
  have hbounds := abs_le.mp hnear
  by_cases hfits : roundedDigits units (leadingExponent units) < Nat.pow 10 precision
  · rw [if_pos hfits]
    refine ⟨_, _, rfl, ⟨?_, hfits⟩, hnear⟩
    have hmore : (10 ^ 14 : ℚ) < roundedDigits units (leadingExponent units) + 1 := by linarith
    have hmore' : 10 ^ 14 < roundedDigits units (leadingExponent units) + 1 := by
      exact_mod_cast hmore
    omega
  · -- nines that round up: the digits are one and zeros, at the next exponent
    rw [if_neg hfits]
    have hless : (roundedDigits units (leadingExponent units) : ℚ) < 10 ^ 15 + 1 := by linarith
    have hless' : roundedDigits units (leadingExponent units) < 10 ^ 15 + 1 := by
      exact_mod_cast hless
    have hcarry : roundedDigits units (leadingExponent units) = 10 ^ 15 := by
      rw [pow_precision] at hfits
      omega
    rw [hcarry] at hbounds ⊢
    refine ⟨10 ^ 14, _, rfl, ⟨by decide, by decide⟩, ?_⟩
    rw [lastPlace_add_one, mul_comm, ← div_div]
    push_cast at hbounds ⊢
    rw [abs_le]
    constructor <;> linarith

/-- A size that has its leading digit at an exponent has the digits it is near to. -/
theorem significant_eq_of_le {units m : Nat} {exponent : ℤ} (hm : Fifteen m)
    (hlow : 10 ^ 14 ≤ (units : ℚ) / lastPlace exponent)
    (hnear : |(m : ℚ) - units / lastPlace exponent| < 1 / 2) :
    significant units = (digits m, exponent) := by
  have hlast := lastPlace_pos exponent
  have hless : (m : ℚ) + 1 ≤ 10 ^ 15 := by exact_mod_cast hm.2
  have hhigh : (units : ℚ) / lastPlace exponent < 10 ^ 15 := by
    rw [abs_lt] at hnear
    linarith
  have hexponent : leadingExponent units = exponent := by
    apply leadingExponent_eq
    · rwa [← le_div_iff₀ hlast]
    · rwa [← div_lt_iff₀ hlast]
  rw [significant, hexponent, roundedDigits_eq_of_abs_lt hnear, pow_precision, if_pos hm.2]

/-- A size just below the smallest digits of an exponent rounds up to them. -/
theorem significant_eq_of_lt {units : Nat} {exponent : ℤ}
    (hhigh : (units : ℚ) / lastPlace exponent < 10 ^ 14)
    (hnear : (10 : ℚ) ^ 14 - 1 / 20 < units / lastPlace exponent) :
    significant units = (digits (10 ^ 14), exponent) := by
  have hlast := lastPlace_pos (exponent - 1)
  have hstep : lastPlace exponent = 10 * lastPlace (exponent - 1) := by
    rw [← lastPlace_add_one, sub_add_cancel]
  have hratio : (units : ℚ) / lastPlace (exponent - 1) = 10 * (units / lastPlace exponent) := by
    rw [hstep]
    field_simp
  have hexponent : leadingExponent units = exponent - 1 := by
    apply leadingExponent_eq
    · rw [← le_div_iff₀ hlast, hratio]
      linarith
    · rw [← div_lt_iff₀ hlast, hratio]
      linarith
  have hrounded : roundedDigits units (exponent - 1) = 10 ^ 15 := by
    apply roundedDigits_eq_of_abs_lt
    rw [hratio, abs_lt]
    push_cast
    constructor <;> linarith
  rw [significant, hexponent, hrounded, pow_precision, if_neg (by decide), sub_add_cancel]
  rfl

/-- A size has the digits that it is near to.  Below the smallest digits of an exponent
the digits lie ten times closer, so that near means more there. -/
theorem significant_eq {units m : Nat} {exponent : ℤ} (hm : Fifteen m)
    (hnear : |(m : ℚ) - units / lastPlace exponent| < 1 / 2)
    (hlow : (units : ℚ) / lastPlace exponent < 10 ^ 14 →
      |(m : ℚ) - units / lastPlace exponent| < 1 / 20) :
    significant units = (digits m, exponent) := by
  rcases lt_or_ge ((units : ℚ) / lastPlace exponent) (10 ^ 14) with hless | hmore
  · have hnearer := abs_lt.mp (hlow hless)
    have hsmall : (m : ℚ) < 10 ^ 14 + 1 := by linarith
    have hsmall' : m < 10 ^ 14 + 1 := by exact_mod_cast hsmall
    obtain rfl : m = 10 ^ 14 := Nat.le_antisymm (Nat.le_of_lt_succ hsmall') hm.1
    apply significant_eq_of_lt hless
    push_cast at hnearer
    linarith
  · exact significant_eq_of_le hm hmore hnear

end Lisplet.Decimal
