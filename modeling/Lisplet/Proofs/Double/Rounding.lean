import Mathlib.Algebra.Order.Field.Power
import Mathlib.Algebra.Order.Field.Rat
import Mathlib.Tactic.FieldSimp
import Mathlib.Tactic.Linarith
import Mathlib.Tactic.Positivity
import Mathlib.Tactic.Ring
import Mathlib.Data.Nat.Cast.Order.Field
import Lisplet.Double.Arithmetic

/-!
# How far rounding goes

A rounded fraction is at most one half away from it, and whatever is less than one half
away from a fraction is what it is rounded to.  A double is rounded at a scale, so that
its size is at most half a step of that scale away, and the scale is small against the
size.
-/

namespace Lisplet

/-- The distance from a rounded fraction, in parts of the denominator. -/
theorem two_mul_roundHalfEven_mul (numerator : Nat) {denominator : Nat} (hpos : 0 < denominator) :
    2 * (roundHalfEven numerator denominator * denominator) ≤ 2 * numerator + denominator ∧
      2 * numerator ≤ 2 * (roundHalfEven numerator denominator * denominator) + denominator := by
  have hdivision : numerator / denominator * denominator + numerator % denominator = numerator :=
    Nat.div_add_mod' numerator denominator
  have hmod := Nat.mod_lt numerator hpos
  have hup : (numerator / denominator + 1) * denominator =
      numerator / denominator * denominator + denominator := Nat.succ_mul _ _
  rw [roundHalfEven]
  split
  · omega
  · split
    · rw [hup]
      omega
    · -- halfway between two whole numbers either of them will do
      rcases Nat.mod_two_eq_zero_or_one (numerator / denominator) with heven | hodd
      · rw [heven, Nat.add_zero]
        omega
      · rw [hodd, hup]
        omega

theorem abs_roundHalfEven_sub_le (numerator : Nat) {denominator : Nat} (hpos : 0 < denominator) :
    |(roundHalfEven numerator denominator : ℚ) - numerator / denominator| ≤ 1 / 2 := by
  have hdenominator : (0 : ℚ) < denominator := Nat.cast_pos.mpr hpos
  obtain ⟨hupper, hlower⟩ := two_mul_roundHalfEven_mul numerator hpos
  have hupper' : 2 * ((roundHalfEven numerator denominator : ℚ) * denominator) ≤
      2 * numerator + denominator := by exact_mod_cast hupper
  have hlower' : 2 * (numerator : ℚ) ≤
      2 * ((roundHalfEven numerator denominator : ℚ) * denominator) + denominator := by
    exact_mod_cast hlower
  rw [abs_le]
  constructor
  · rw [neg_le_sub_iff_le_add, div_le_iff₀ hdenominator]
    linarith
  · rw [sub_le_iff_le_add, ← sub_le_iff_le_add', le_div_iff₀ hdenominator]
    linarith

/-- Rounding takes one of the two whole numbers around a fraction. -/
theorem roundHalfEven_bounds (numerator denominator : Nat) :
    numerator / denominator ≤ roundHalfEven numerator denominator ∧
      roundHalfEven numerator denominator ≤ numerator / denominator + 1 := by
  have hparity := Nat.mod_lt (numerator / denominator) (show 2 > 0 by decide)
  rw [roundHalfEven]
  split
  · omega
  · split <;> omega

/-- What is less than one half away from a fraction is what the fraction is rounded to. -/
theorem roundHalfEven_eq_of_abs_lt {numerator denominator k : Nat} (hpos : 0 < denominator)
    (hnear : |(k : ℚ) - numerator / denominator| < 1 / 2) :
    roundHalfEven numerator denominator = k := by
  have hrounded := abs_roundHalfEven_sub_le numerator hpos
  rw [abs_le] at hrounded
  rw [abs_lt] at hnear
  have hless : (roundHalfEven numerator denominator : ℚ) < k + 1 := by linarith
  have hmore : (k : ℚ) < roundHalfEven numerator denominator + 1 := by linarith
  have hless' : roundHalfEven numerator denominator < k + 1 := by exact_mod_cast hless
  have hmore' : k < roundHalfEven numerator denominator + 1 := by exact_mod_cast hmore
  omega

namespace Double

def magnitude (place : Nat) : Nat := significandOfPlace place * Nat.pow 2 (scaleOfPlace place)

theorem magnitude_of_lt {place : Nat} (hsmall : place < binade) : magnitude place = place := by
  rw [magnitude, significandOfPlace, if_pos hsmall, scaleOfPlace, Nat.div_eq_of_lt hsmall]
  exact Nat.mul_one place

/-- A place with a leading one, by its scale and the rest of its significand. -/
theorem magnitude_succ_mul_add (scale : Nat) {rest : Nat} (hrest : rest < binade) :
    magnitude ((scale + 1) * binade + rest) = (binade + rest) * Nat.pow 2 scale := by
  have hlarge : ¬ (scale + 1) * binade + rest < binade := by
    rw [Nat.succ_mul]
    omega
  have hdiv : ((scale + 1) * binade + rest) / binade = scale + 1 := by
    rw [Nat.add_comm, Nat.add_mul_div_right _ _ binade_pos, Nat.div_eq_of_lt hrest, Nat.zero_add]
  have hmod : ((scale + 1) * binade + rest) % binade = rest := by
    rw [Nat.add_comm, Nat.add_mul_mod_self_right, Nat.mod_eq_of_lt hrest]
  rw [magnitude, significandOfPlace, if_neg hlarge, scaleOfPlace, hdiv, hmod, Nat.add_sub_cancel]

theorem units_eq_magnitude (x : Double) : x.units = magnitude x.place := rfl

/-- The sum that rounding makes of scale and significand is the right place, if the
significand has its leading one or the scale is the smallest.  One more than the largest
significand reaches the next scale. -/
theorem magnitude_add (scale significand : Nat) (hlow : scale = 0 ∨ binade ≤ significand)
    (hhigh : significand ≤ 2 * binade) :
    magnitude (scale * binade + significand) = significand * Nat.pow 2 scale := by
  by_cases hsmall : significand < binade
  · obtain rfl : scale = 0 := hlow.resolve_right (Nat.not_le_of_lt hsmall)
    rw [Nat.zero_mul, Nat.zero_add, magnitude_of_lt hsmall]
    exact (Nat.mul_one significand).symm
  · obtain ⟨rest, rfl⟩ := Nat.exists_eq_add_of_le (Nat.le_of_not_lt hsmall)
    by_cases hcarry : rest < binade
    · have hplace : scale * binade + (binade + rest) = (scale + 1) * binade + rest := by
        rw [Nat.succ_mul, Nat.add_assoc]
      rw [hplace, magnitude_succ_mul_add scale hcarry]
    · obtain rfl : rest = binade := by omega
      have hplace : scale * binade + (binade + binade) = (scale + 1 + 1) * binade + 0 := by
        rw [Nat.succ_mul, Nat.succ_mul, Nat.add_zero, Nat.add_assoc]
      have hpow : Nat.pow 2 (scale + 1) = Nat.pow 2 scale * 2 := Nat.pow_succ 2 scale
      rw [hplace, magnitude_succ_mul_add (scale + 1) binade_pos, hpow, Nat.add_zero,
        ← Nat.mul_two, Nat.mul_assoc, Nat.mul_comm 2]

theorem exists_eq_succ_mul_add {place : Nat} (hlarge : binade ≤ place) :
    ∃ scale rest, rest < binade ∧ place = (scale + 1) * binade + rest := by
  refine ⟨place / binade - 1, place % binade, Nat.mod_lt _ binade_pos, ?_⟩
  have hdiv : 0 < place / binade := Nat.div_pos hlarge binade_pos
  rw [Nat.sub_add_cancel hdiv, Nat.div_add_mod']

theorem magnitude_pos {place : Nat} (hpos : 0 < place) : 0 < magnitude place := by
  by_cases hsmall : place < binade
  · rwa [magnitude_of_lt hsmall]
  · obtain ⟨scale, rest, hrest, rfl⟩ := exists_eq_succ_mul_add (Nat.le_of_not_lt hsmall)
    rw [magnitude_succ_mul_add scale hrest]
    exact Nat.mul_pos (Nat.add_pos_left binade_pos _) (Nat.two_pow_pos scale)

theorem unitsOfOne_pos : 0 < unitsOfOne := by
  decide +kernel

theorem cast_unitsOfOne_pos : (0 : ℚ) < unitsOfOne := Nat.cast_pos.mpr unitsOfOne_pos

/-! ## The scale of a size -/

@[irreducible]
def largestScale : Nat := 2045

theorem infinityPlace_eq : infinityPlace = (largestScale + 2) * binade := by
  rw [largestScale, infinityPlace]

/-- The size at the fifth place before infinity is the largest below. -/
theorem magnitude_le {place : Nat} (hend : place + 4 < infinityPlace) :
    magnitude place ≤ (2 * binade - 5) * Nat.pow 2 largestScale := by
  have hfive : 5 ≤ binade := by decide
  have hpow (scale : Nat) : 0 < Nat.pow 2 scale := Nat.two_pow_pos scale
  by_cases hsmall : place < binade
  · rw [magnitude_of_lt hsmall]
    calc
      place ≤ 2 * binade - 5 := by omega
      _ ≤ (2 * binade - 5) * Nat.pow 2 largestScale := Nat.le_mul_of_pos_right _ (hpow _)
  · obtain ⟨scale, rest, hrest, rfl⟩ := exists_eq_succ_mul_add (Nat.le_of_not_lt hsmall)
    rw [magnitude_succ_mul_add scale hrest]
    rw [infinityPlace_eq] at hend
    have hscale : scale ≤ largestScale := by
      by_contra hmore
      have hmul : (largestScale + 2) * binade ≤ (scale + 1) * binade :=
        Nat.mul_le_mul_right _ (by omega)
      omega
    rcases Nat.lt_or_eq_of_le hscale with hless | rfl
    · calc
        (binade + rest) * Nat.pow 2 scale ≤ 2 * binade * Nat.pow 2 scale :=
          Nat.mul_le_mul_right _ (by omega)
        _ = binade * Nat.pow 2 (scale + 1) := by
          rw [show Nat.pow 2 (scale + 1) = 2 * Nat.pow 2 scale from Nat.pow_succ', Nat.mul_comm 2,
            Nat.mul_assoc]
        _ ≤ binade * Nat.pow 2 largestScale :=
          Nat.mul_le_mul_left _ (Nat.pow_le_pow_right (by decide) hless)
        _ ≤ (2 * binade - 5) * Nat.pow 2 largestScale := Nat.mul_le_mul_right _ (by omega)
    · rw [Nat.add_mul, Nat.add_mul] at hend
      exact Nat.mul_le_mul_right _ (by omega)

theorem cast_magnitude_le {place : Nat} (hend : place + 4 < infinityPlace) :
    (magnitude place : ℚ) ≤ (2 * binade - 5) * 2 ^ largestScale := by
  have hfive : 5 ≤ 2 * binade := by decide
  have hcast : (magnitude place : ℚ) ≤ ((2 * binade - 5) * Nat.pow 2 largestScale : ℕ) :=
    Nat.cast_le.mpr (magnitude_le hend)
  rw [Nat.cast_mul, Nat.cast_sub hfive] at hcast
  exact_mod_cast hcast

theorem roundingScale_of_lt {whole : Nat} (hsmall : whole < 2 * binade) :
    roundingScale whole = 0 :=
  if_pos hsmall

theorem binade_mul_pow {exponent : Nat} (hexponent : fractionBits ≤ exponent) :
    binade * Nat.pow 2 (exponent - fractionBits) = 2 ^ exponent := by
  calc
    binade * Nat.pow 2 (exponent - fractionBits)
        = 2 ^ fractionBits * 2 ^ (exponent - fractionBits) := rfl
    _ = 2 ^ (fractionBits + (exponent - fractionBits)) := (Nat.pow_add ..).symm
    _ = 2 ^ exponent := by rw [Nat.add_sub_cancel' hexponent]

theorem fractionBits_lt_log2 {whole : Nat} (hlarge : 2 * binade ≤ whole) :
    fractionBits < whole.log2 := by
  have hne : whole ≠ 0 := by
    have hbinade := binade_pos
    omega
  rw [← Nat.succ_le_iff, Nat.le_log2 hne, Nat.pow_succ']
  exact hlarge

/-- At its scale a size that is not small has a significand with a leading one. -/
theorem binade_mul_le {whole : Nat} (hpos : 0 < roundingScale whole) :
    binade * Nat.pow 2 (roundingScale whole) ≤ whole := by
  by_cases hlarge : 2 * binade ≤ whole
  · have hlog := fractionBits_lt_log2 hlarge
    have hne : whole ≠ 0 := by
      rintro rfl
      simp [Nat.log2] at hlog
    rw [roundingScale, if_neg (Nat.not_lt_of_le hlarge), binade_mul_pow (Nat.le_of_lt hlog)]
    exact Nat.log2_self_le hne
  · rw [roundingScale_of_lt (Nat.lt_of_not_le hlarge)] at hpos
    exact absurd hpos (Nat.lt_irrefl 0)

theorem lt_two_mul_binade_mul (whole : Nat) :
    whole < 2 * binade * Nat.pow 2 (roundingScale whole) := by
  by_cases hlarge : 2 * binade ≤ whole
  · have hlog := fractionBits_lt_log2 hlarge
    rw [roundingScale, if_neg (Nat.not_lt_of_le hlarge), Nat.mul_assoc,
      binade_mul_pow (Nat.le_of_lt hlog), ← Nat.pow_succ']
    exact Nat.lt_log2_self
  · have hsmall := Nat.lt_of_not_le hlarge
    rw [roundingScale_of_lt hsmall]
    exact Nat.lt_of_lt_of_eq hsmall (Nat.mul_one _).symm

/-! ## The double nearest to a fraction -/

section Nearest

variable {numerator denominator : Nat}

def scaleOf (numerator denominator : Nat) : Nat := roundingScale (numerator / denominator)

def significandOf (numerator denominator : Nat) : Nat :=
  roundHalfEven numerator (denominator * Nat.pow 2 (scaleOf numerator denominator))

theorem nearestPlace_eq (numerator denominator : Nat) :
    nearestPlace numerator denominator =
      scaleOf numerator denominator * binade + significandOf numerator denominator := rfl

theorem abs_significandOf_sub_le (numerator : Nat) (hpos : 0 < denominator) :
    |(significandOf numerator denominator : ℚ) -
        numerator / denominator / 2 ^ scaleOf numerator denominator| ≤ 1 / 2 := by
  have hnear := abs_roundHalfEven_sub_le numerator
    (Nat.mul_pos hpos (Nat.two_pow_pos (scaleOf numerator denominator)))
  rw [Nat.cast_mul, Nat.cast_pow, ← div_div] at hnear
  exact_mod_cast hnear

theorem significandOf_bounds (numerator denominator : Nat) :
    (scaleOf numerator denominator = 0 ∨ binade ≤ significandOf numerator denominator) ∧
      significandOf numerator denominator ≤ 2 * binade := by
  have hpow : 0 < Nat.pow 2 (scaleOf numerator denominator) := Nat.two_pow_pos _
  obtain ⟨hlow, hhigh⟩ := roundHalfEven_bounds numerator
    (denominator * Nat.pow 2 (scaleOf numerator denominator))
  rw [← Nat.div_div_eq_div_mul] at hlow hhigh
  constructor
  · rcases Nat.eq_zero_or_pos (scaleOf numerator denominator) with hzero | hpos
    · exact .inl hzero
    · exact .inr (Nat.le_trans ((Nat.le_div_iff_mul_le hpow).mpr (binade_mul_le hpos)) hlow)
  · have hless :=
      (Nat.div_lt_iff_lt_mul hpow).mpr (lt_two_mul_binade_mul (numerator / denominator))
    exact Nat.le_trans hhigh hless

theorem magnitude_nearestPlace (numerator denominator : Nat) :
    magnitude (nearestPlace numerator denominator) =
      significandOf numerator denominator * Nat.pow 2 (scaleOf numerator denominator) := by
  obtain ⟨hlow, hhigh⟩ := significandOf_bounds numerator denominator
  rw [nearestPlace_eq, magnitude_add _ _ hlow hhigh]

/-- A rounded size is at most half a step of its scale away. -/
theorem abs_magnitude_nearestPlace_sub_le (numerator : Nat) (hpos : 0 < denominator) :
    |(magnitude (nearestPlace numerator denominator) : ℚ) - numerator / denominator| ≤
      2 ^ scaleOf numerator denominator / 2 := by
  have hscale : (0 : ℚ) < 2 ^ scaleOf numerator denominator := by positivity
  have hnear := abs_significandOf_sub_le numerator hpos
  have hcast : (magnitude (nearestPlace numerator denominator) : ℚ) =
      significandOf numerator denominator * 2 ^ scaleOf numerator denominator := by
    rw [magnitude_nearestPlace]
    exact_mod_cast rfl
  calc
    |(magnitude (nearestPlace numerator denominator) : ℚ) - numerator / denominator|
        = |((significandOf numerator denominator : ℚ) -
            numerator / denominator / 2 ^ scaleOf numerator denominator) *
              2 ^ scaleOf numerator denominator| := by
          rw [hcast, sub_mul, div_mul_cancel₀ _ hscale.ne']
    _ = |(significandOf numerator denominator : ℚ) -
            numerator / denominator / 2 ^ scaleOf numerator denominator| *
              2 ^ scaleOf numerator denominator := by
          rw [abs_mul, abs_of_pos hscale]
    _ ≤ 1 / 2 * 2 ^ scaleOf numerator denominator := by
          exact mul_le_mul_of_nonneg_right hnear hscale.le
    _ = 2 ^ scaleOf numerator denominator / 2 := by ring

/-- The step of a scale is small against a size that is rounded at it. -/
theorem binade_mul_two_pow_le (hpos : 0 < scaleOf numerator denominator) :
    (binade : ℚ) * 2 ^ scaleOf numerator denominator ≤ numerator / denominator := by
  have hwhole : ((binade * Nat.pow 2 (scaleOf numerator denominator) : ℕ) : ℚ) ≤
      ((numerator / denominator : ℕ) : ℚ) := Nat.cast_le.mpr (binade_mul_le hpos)
  have hfloor : ((numerator / denominator : ℕ) : ℚ) ≤ numerator / denominator :=
    Nat.cast_div_le
  calc
    (binade : ℚ) * 2 ^ scaleOf numerator denominator
        = ((binade * Nat.pow 2 (scaleOf numerator denominator) : ℕ) : ℚ) := by
          rw [Nat.cast_mul]
          exact_mod_cast rfl
    _ ≤ numerator / denominator := hwhole.trans hfloor

/-- A rounded size is away by at most one half, or by a small part of itself. -/
theorem abs_magnitude_nearestPlace_sub_le_or (numerator : Nat) (hpos : 0 < denominator) :
    |(magnitude (nearestPlace numerator denominator) : ℚ) - numerator / denominator| ≤
        1 / 2 ∨
      |(magnitude (nearestPlace numerator denominator) : ℚ) - numerator / denominator| ≤
        numerator / denominator / (2 * binade) := by
  have hnear := abs_magnitude_nearestPlace_sub_le numerator hpos
  rcases Nat.eq_zero_or_pos (scaleOf numerator denominator) with hzero | hscale
  · rw [hzero, pow_zero] at hnear
    exact .inl hnear
  · have hbinade : (0 : ℚ) < binade := Nat.cast_pos.mpr binade_pos
    have hsmall := binade_mul_two_pow_le hscale
    refine .inr (hnear.trans ?_)
    rw [le_div_iff₀ (by positivity)]
    linarith

/-- The sizes without a large significand have the smallest scale. -/
theorem scaleOf_of_lt (hsmall : (numerator : ℚ) / denominator < 2 * binade) :
    scaleOf numerator denominator = 0 := by
  have hfloor : ((numerator / denominator : ℕ) : ℚ) ≤ numerator / denominator :=
    Nat.cast_div_le
  apply roundingScale_of_lt
  exact_mod_cast hfloor.trans_lt hsmall

/-- There a fraction is rounded to the whole number that it is near to. -/
theorem magnitude_nearestPlace_of_lt (hpos : 0 < denominator)
    (hsmall : (numerator : ℚ) / denominator < 2 * binade) {k : Nat}
    (hnear : |(k : ℚ) - numerator / denominator| < 1 / 2) :
    magnitude (nearestPlace numerator denominator) = k := by
  have hzero := scaleOf_of_lt hsmall
  have hrounded : significandOf numerator denominator = k := by
    rw [significandOf, hzero]
    apply roundHalfEven_eq_of_abs_lt (Nat.mul_pos hpos (Nat.two_pow_pos 0))
    rwa [show denominator * Nat.pow 2 0 = denominator from Nat.mul_one _]
  rw [magnitude_nearestPlace, hzero, hrounded]
  exact Nat.mul_one k

/-- What is less than halfway from the largest finite size to the next power of two is
not rounded to infinity. -/
theorem nearestPlace_lt_infinityPlace (hpos : 0 < denominator)
    (hbound : (numerator : ℚ) / denominator < (2 * binade - 1 / 2) * 2 ^ largestScale) :
    nearestPlace numerator denominator < infinityPlace := by
  have hbinade : (0 : ℚ) < binade := Nat.cast_pos.mpr binade_pos
  have hsignificand := (significandOf_bounds numerator denominator).2
  have hlargest : (0 : ℚ) < 2 ^ largestScale := by positivity
  rw [nearestPlace_eq, infinityPlace_eq]
  rcases Nat.lt_trichotomy (scaleOf numerator denominator) largestScale with
    hless | hequal | hmore
  · have hmul : (scaleOf numerator denominator + 1) * binade ≤ largestScale * binade :=
      Nat.mul_le_mul_right _ hless
    have hpositive := binade_pos
    rw [Nat.succ_mul] at hmul
    rw [Nat.add_mul]
    omega
  · have hnear := abs_significandOf_sub_le numerator hpos
    rw [hequal, abs_le] at hnear
    have hquotient : (numerator : ℚ) / denominator / 2 ^ largestScale < 2 * binade - 1 / 2 := by
      rwa [div_lt_iff₀ hlargest]
    have hless : (significandOf numerator denominator : ℚ) < 2 * binade := by linarith
    have hless' : significandOf numerator denominator < 2 * binade := by exact_mod_cast hless
    rw [hequal, Nat.add_mul]
    omega
  · exfalso
    have hsmall := binade_mul_two_pow_le (Nat.zero_lt_of_lt hmore)
    have hpow : (2 : ℚ) ^ largestScale * 2 ≤ 2 ^ scaleOf numerator denominator := by
      rw [← pow_succ]
      exact pow_le_pow_right₀ (by norm_num) hmore
    have hmul := mul_le_mul_of_nonneg_left hpow hbinade.le
    linarith

theorem place_nearest (negative : Bool)
    (hfinite : nearestPlace numerator denominator < infinityPlace) :
    (nearest negative numerator denominator).place = nearestPlace numerator denominator :=
  Nat.min_eq_left (Nat.le_of_lt hfinite)

end Nearest

end Double

end Lisplet
