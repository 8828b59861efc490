import Lisplet.Proofs.Double.Value

/-!
# The nearest double

What a fraction is rounded to is the double nearest to it: no finite double lies nearer,
and where another one lies equally near the last bit of the significand is zero.  From
halfway between the largest finite double and the next power of two on it is infinity.
A double whose exponent is smaller than the one at which a fraction is rounded lies
below all significands of that scale, and all others are whole multiples of its step, so
that the rounding of one whole number decides.
-/

namespace Lisplet

/-! ## Whole numbers -/

theorem one_le_abs_sub {m n : Nat} (hne : m ≠ n) : (1 : ℚ) ≤ |(m : ℚ) - n| := by
  have hint : (m : ℤ) - n ≠ 0 := by omega
  exact_mod_cast Int.one_le_abs hint

section Whole

variable {numerator denominator k : Nat}

/-- No whole number is nearer to a fraction than the one that it is rounded to. -/
theorem abs_roundHalfEven_sub_le_abs (hpos : 0 < denominator) :
    |(roundHalfEven numerator denominator : ℚ) - numerator / denominator| ≤
      |(k : ℚ) - numerator / denominator| := by
  by_cases hk : k = roundHalfEven numerator denominator
  · rw [hk]
  · have hhalf := abs_roundHalfEven_sub_le numerator hpos
    have hone := one_le_abs_sub hk
    have htriangle := abs_sub_le (k : ℚ) (numerator / denominator)
      (roundHalfEven numerator denominator)
    rw [abs_sub_comm ((numerator : ℚ) / denominator)] at htriangle
    linarith

/-- If another whole number is as near, the one that a fraction is rounded to is even. -/
theorem roundHalfEven_even (hpos : 0 < denominator)
    (hne : k ≠ roundHalfEven numerator denominator)
    (htie : |(k : ℚ) - numerator / denominator| =
      |(roundHalfEven numerator denominator : ℚ) - numerator / denominator|) :
    roundHalfEven numerator denominator % 2 = 0 := by
  have hdenominator : (0 : ℚ) < denominator := Nat.cast_pos.mpr hpos
  have hhalf : |(roundHalfEven numerator denominator : ℚ) - numerator / denominator| = 1 / 2 := by
    have hnear := abs_roundHalfEven_sub_le numerator hpos
    have hone := one_le_abs_sub hne
    have htriangle := abs_sub_le (k : ℚ) (numerator / denominator)
      (roundHalfEven numerator denominator)
    rw [abs_sub_comm ((numerator : ℚ) / denominator)] at htriangle
    linarith
  -- in parts of the denominator the distance is half of it
  have hparts : 2 * (roundHalfEven numerator denominator * denominator) =
        2 * numerator + denominator ∨
      2 * numerator = 2 * (roundHalfEven numerator denominator * denominator) + denominator := by
    have hscaled (n : ℚ) :
        n * denominator - numerator = (n - numerator / denominator) * denominator := by
      rw [sub_mul, div_mul_cancel₀ _ hdenominator.ne']
    have hdistance := hscaled (roundHalfEven numerator denominator)
    rcases eq_or_eq_neg_of_abs_eq hhalf with hup | hdown
    · left
      rw [hup] at hdistance
      have hcast : 2 * ((roundHalfEven numerator denominator : ℚ) * denominator) =
          2 * numerator + denominator := by linarith
      exact_mod_cast hcast
    · right
      rw [hdown] at hdistance
      have hcast : 2 * (numerator : ℚ) =
          2 * ((roundHalfEven numerator denominator : ℚ) * denominator) + denominator := by linarith
      exact_mod_cast hcast
  have hdivision := Nat.div_add_mod' numerator denominator
  have hmod := Nat.mod_lt numerator hpos
  rw [roundHalfEven] at hparts ⊢
  split at hparts
  · omega
  · split at hparts
    · rw [Nat.succ_mul (numerator / denominator)] at hparts
      omega
    · next hlow hhigh =>
        rw [if_neg hlow, if_neg hhigh]
        omega

end Whole

namespace Double

/-! ## Magnitudes -/

theorem significandOfPlace_lt (place : Nat) : significandOfPlace place < 2 * binade := by
  have hmod := Nat.mod_lt place binade_pos
  rw [significandOfPlace]
  split <;> omega

@[simp]
theorem significandOfPlace_mod_two (place : Nat) : significandOfPlace place % 2 = place % 2 := by
  have heven : binade % 2 = 0 := by decide
  have hmod : place % binade % 2 = place % 2 := Nat.mod_mod_of_dvd _ (Nat.dvd_of_mod_eq_zero heven)
  rw [significandOfPlace]
  split <;> omega

section Magnitudes

variable {numerator denominator : Nat}

/-- Seen from a fraction, every size lies no nearer than some whole multiple of the step
at which the fraction is rounded, and it is that multiple or lies further away. -/
theorem exists_multiple (numerator denominator place : Nat) :
    ∃ k : Nat, (magnitude place : ℚ) = k * 2 ^ scaleOf numerator denominator ∨
      |(k : ℚ) * 2 ^ scaleOf numerator denominator - numerator / denominator| <
        |(magnitude place : ℚ) - numerator / denominator| := by
  by_cases hscale : scaleOf numerator denominator ≤ scaleOfPlace place
  · refine ⟨significandOfPlace place *
      2 ^ (scaleOfPlace place - scaleOf numerator denominator), .inl ?_⟩
    have hpow : Nat.pow 2 (scaleOfPlace place) =
        2 ^ (scaleOfPlace place - scaleOf numerator denominator) *
          2 ^ scaleOf numerator denominator := by
      rw [← Nat.pow_add, Nat.sub_add_cancel hscale]
      rfl
    rw [magnitude, hpow, ← Nat.mul_assoc]
    push_cast
    rfl
  · -- all sizes of a smaller scale lie below the significands with a leading one
    have hpos : 0 < scaleOf numerator denominator := by omega
    have hlow := binade_mul_two_pow_le hpos
    have hpow : 2 * Nat.pow 2 (scaleOfPlace place) ≤ Nat.pow 2 (scaleOf numerator denominator) := by
      rw [show 2 * Nat.pow 2 (scaleOfPlace place) = Nat.pow 2 (scaleOfPlace place + 1) from
        Nat.pow_succ'.symm]
      exact Nat.pow_le_pow_right (by decide) (by omega)
    have hless : magnitude place < binade * Nat.pow 2 (scaleOf numerator denominator) := by
      calc
        magnitude place < 2 * binade * Nat.pow 2 (scaleOfPlace place) :=
          Nat.mul_lt_mul_of_pos_right (significandOfPlace_lt place) (Nat.two_pow_pos _)
        _ = binade * (2 * Nat.pow 2 (scaleOfPlace place)) := by
          rw [Nat.mul_comm 2 binade, Nat.mul_assoc]
        _ ≤ binade * Nat.pow 2 (scaleOf numerator denominator) := Nat.mul_le_mul_left _ hpow
    have hcast : (magnitude place : ℚ) < binade * 2 ^ scaleOf numerator denominator := by
      exact_mod_cast hless
    refine ⟨binade, .inr ?_⟩
    rw [abs_of_nonpos (by linarith), abs_of_nonpos (by linarith)]
    linarith

/-- The distance of a multiple of the step, in steps. -/
theorem abs_mul_two_pow_sub (k numerator denominator : Nat) :
    |(k : ℚ) * 2 ^ scaleOf numerator denominator - numerator / denominator| =
      |(k : ℚ) - numerator / (denominator * Nat.pow 2 (scaleOf numerator denominator) : ℕ)| *
        2 ^ scaleOf numerator denominator := by
  have hstep : (0 : ℚ) < 2 ^ scaleOf numerator denominator := by positivity
  have hcast : ((denominator * Nat.pow 2 (scaleOf numerator denominator) : ℕ) : ℚ) =
      denominator * 2 ^ scaleOf numerator denominator := by
    rw [Nat.cast_mul]
    exact_mod_cast rfl
  rw [hcast, ← div_div, ← abs_of_pos hstep, ← abs_mul, abs_of_pos hstep, sub_mul,
    div_mul_cancel₀ _ hstep.ne']

theorem cast_magnitude_nearestPlace (numerator denominator : Nat) :
    (magnitude (nearestPlace numerator denominator) : ℚ) =
      significandOf numerator denominator * 2 ^ scaleOf numerator denominator := by
  rw [magnitude_nearestPlace]
  exact_mod_cast rfl

/-- No size is nearer to a fraction than the one that it is rounded to. -/
theorem abs_magnitude_nearestPlace_sub_le_abs (hpos : 0 < denominator) (place : Nat) :
    |(magnitude (nearestPlace numerator denominator) : ℚ) - numerator / denominator| ≤
      |(magnitude place : ℚ) - numerator / denominator| := by
  have hwhole (k : Nat) :
      |(magnitude (nearestPlace numerator denominator) : ℚ) - numerator / denominator| ≤
        |(k : ℚ) * 2 ^ scaleOf numerator denominator - numerator / denominator| := by
    rw [cast_magnitude_nearestPlace, abs_mul_two_pow_sub, abs_mul_two_pow_sub]
    exact mul_le_mul_of_nonneg_right
      (abs_roundHalfEven_sub_le_abs (Nat.mul_pos hpos (Nat.two_pow_pos _))) (by positivity)
  obtain ⟨k, hequal | hless⟩ := exists_multiple numerator denominator place
  · rw [hequal]
    exact hwhole k
  · exact (hwhole k).trans hless.le

/-- If another size is as near, the last bit of the significand is zero. -/
theorem significandOfPlace_nearestPlace_even (hpos : 0 < denominator) {place : Nat}
    (hne : magnitude place ≠ magnitude (nearestPlace numerator denominator))
    (htie : |(magnitude place : ℚ) - numerator / denominator| =
      |(magnitude (nearestPlace numerator denominator) : ℚ) - numerator / denominator|) :
    significandOfPlace (nearestPlace numerator denominator) % 2 = 0 := by
  have hstep : (0 : ℚ) < 2 ^ scaleOf numerator denominator := by positivity
  have hdenominator : 0 < denominator * Nat.pow 2 (scaleOf numerator denominator) :=
    Nat.mul_pos hpos (Nat.two_pow_pos _)
  have heven : significandOf numerator denominator % 2 = 0 := by
    obtain ⟨k, hequal | hless⟩ := exists_multiple numerator denominator place
    · rw [hequal, cast_magnitude_nearestPlace, abs_mul_two_pow_sub, abs_mul_two_pow_sub] at htie
      apply roundHalfEven_even hdenominator _ (mul_right_cancel₀ hstep.ne' htie)
      rintro rfl
      apply hne
      rw [← Nat.cast_inj (R := ℚ), hequal, cast_magnitude_nearestPlace, significandOf]
    · -- a multiple of the step would be nearer than what the fraction is rounded to
      have hnearest : |(magnitude (nearestPlace numerator denominator) : ℚ) -
          numerator / denominator| ≤
            |(k : ℚ) * 2 ^ scaleOf numerator denominator - numerator / denominator| := by
        rw [cast_magnitude_nearestPlace, abs_mul_two_pow_sub, abs_mul_two_pow_sub]
        exact mul_le_mul_of_nonneg_right (abs_roundHalfEven_sub_le_abs hdenominator) hstep.le
      linarith
  have hproduct : scaleOf numerator denominator * binade % 2 = 0 := by
    rw [Nat.mul_mod, show binade % 2 = 0 by decide, Nat.mul_zero]
  rw [significandOfPlace_mod_two, nearestPlace_eq]
  omega

theorem abs_magnitude_zero_sub (numerator denominator : Nat) :
    |(magnitude 0 : ℚ) - numerator / denominator| = numerator / denominator := by
  rw [magnitude_of_lt binade_pos, Nat.cast_zero, zero_sub, abs_neg,
    abs_of_nonneg (div_nonneg (Nat.cast_nonneg _) (Nat.cast_nonneg _))]

/-! ## Infinity -/

theorem div_lt_two_mul_binade_mul (numerator : Nat) (hpos : 0 < denominator) :
    (numerator : ℚ) / denominator < 2 * binade * 2 ^ scaleOf numerator denominator := by
  have hfloor := lt_two_mul_binade_mul (numerator / denominator)
  rw [Nat.div_lt_iff_lt_mul hpos] at hfloor
  rw [div_lt_iff₀ (Nat.cast_pos.mpr hpos)]
  exact_mod_cast hfloor

/-- From halfway above the largest significand on, rounding goes past it: that
significand is odd, so that the half itself goes up. -/
theorem two_mul_binade_le_roundHalfEven (hpos : 0 < denominator)
    (hbound : 2 * (binade : ℚ) - 1 / 2 ≤ numerator / denominator) :
    2 * binade ≤ roundHalfEven numerator denominator := by
  have hnear := abs_le.mp (abs_roundHalfEven_sub_le numerator hpos)
  have hreach : (2 * binade : ℚ) ≤ roundHalfEven numerator denominator + 1 := by linarith
  have hreach' : 2 * binade ≤ roundHalfEven numerator denominator + 1 := by exact_mod_cast hreach
  have hne : roundHalfEven numerator denominator + 1 ≠ 2 * binade := by
    intro hlast
    have hcast : (roundHalfEven numerator denominator : ℚ) + 1 = 2 * binade := by
      exact_mod_cast hlast
    have hhalf : numerator / denominator = 2 * (binade : ℚ) - 1 / 2 := by linarith
    have heven : roundHalfEven numerator denominator % 2 = 0 := by
      apply roundHalfEven_even hpos (hlast ▸ Nat.succ_ne_self _ :
        2 * binade ≠ roundHalfEven numerator denominator)
      rw [hhalf, eq_sub_of_add_eq hcast]
      push_cast
      rw [abs_of_nonneg (by linarith), abs_of_nonpos (by linarith)]
      ring
    omega
  omega

/-- What is at least halfway from the largest finite size to the next power of two is
rounded to infinity. -/
theorem infinityPlace_le_nearestPlace (hpos : 0 < denominator)
    (hbound : (2 * binade - 1 / 2) * 2 ^ largestScale ≤ (numerator : ℚ) / denominator) :
    infinityPlace ≤ nearestPlace numerator denominator := by
  have hone : (1 : ℚ) ≤ binade := by exact_mod_cast binade_pos
  have hlargest : (0 : ℚ) < 2 ^ largestScale := by positivity
  obtain ⟨hlow, -⟩ := significandOf_bounds numerator denominator
  rw [nearestPlace_eq, infinityPlace_eq]
  rcases Nat.lt_trichotomy (scaleOf numerator denominator) largestScale with
    hless | hequal | hmore
  · exfalso
    have hsmall := div_lt_two_mul_binade_mul numerator hpos
    have hpow : (2 : ℚ) ^ scaleOf numerator denominator * 2 ≤ 2 ^ largestScale := by
      rw [← pow_succ]
      exact pow_le_pow_right₀ (by norm_num) hless
    have hmul := mul_le_mul_of_nonneg_left hpow (zero_le_one.trans hone)
    have hpart := mul_le_mul_of_nonneg_right hone hlargest.le
    linarith
  · have hcast : ((denominator * Nat.pow 2 (scaleOf numerator denominator) : ℕ) : ℚ) =
        denominator * 2 ^ largestScale := by
      rw [hequal, Nat.cast_mul]
      exact_mod_cast rfl
    have hquotient : 2 * (binade : ℚ) - 1 / 2 ≤
        numerator / (denominator * Nat.pow 2 (scaleOf numerator denominator) : ℕ) := by
      rwa [hcast, ← div_div, le_div_iff₀ hlargest]
    have hreach : 2 * binade ≤ significandOf numerator denominator :=
      two_mul_binade_le_roundHalfEven (Nat.mul_pos hpos (Nat.two_pow_pos _)) hquotient
    rw [hequal, Nat.add_mul]
    omega
  · have hsignificand := hlow.resolve_left (by omega)
    have hmul : (largestScale + 1) * binade ≤ scaleOf numerator denominator * binade :=
      Nat.mul_le_mul_right _ hmore
    rw [Nat.add_mul, Nat.one_mul] at hmul
    rw [Nat.add_mul]
    omega

end Magnitudes

/-! ## Values -/

/-- A double is the one that a number is rounded to: infinity from `overflow` on, and
otherwise the nearest finite one, with an even significand if two are equally near. -/
structure IsNearest (q : ℚ) (x : Double) : Prop where
  isInfinite_iff : x.isInfinite = true ↔ overflow ≤ |q|
  nearest : x.isInfinite = false → ∀ y : Double, y.isInfinite = false →
    |x.value - q| ≤ |y.value - q|
  even : x.isInfinite = false → ∀ y : Double, y.isInfinite = false → y.value ≠ x.value →
    |y.value - q| = |x.value - q| → significandOfPlace x.place % 2 = 0

section Value

variable {numerator denominator : Nat} {size : ℚ} {negative : Bool}

theorem isInfinite_nearest_iff (negative : Bool) (numerator denominator : Nat) :
    (nearest negative numerator denominator).isInfinite = true ↔
      infinityPlace ≤ nearestPlace numerator denominator := by
  simp [nearest, ofPlace, isInfinite]

theorem place_nearest_of_finite
    (hfinite : (nearest negative numerator denominator).isInfinite = false) :
    (nearest negative numerator denominator).place = nearestPlace numerator denominator := by
  apply place_nearest negative
  rw [← Nat.not_le, ← isInfinite_nearest_iff negative, hfinite]
  exact Bool.false_ne_true

variable (hratio : (numerator : ℚ) / denominator = size * unitsOfOne)
include hratio

theorem size_nonneg_of_ratio : 0 ≤ size := by
  rw [← div_eq_iff cast_unitsOfOne_pos.ne'] at hratio
  rw [← hratio]
  exact div_nonneg (div_nonneg (Nat.cast_nonneg _) (Nat.cast_nonneg _)) cast_unitsOfOne_pos.le

/-- How far a rounded number is away, in units. -/
theorem abs_value_nearest_sub
    (hfinite : (nearest negative numerator denominator).isInfinite = false) :
    |(nearest negative numerator denominator).value - (if negative then -size else size)| *
        unitsOfOne =
      |(magnitude (nearestPlace numerator denominator) : ℚ) - numerator / denominator| := by
  have hsign : (nearest negative numerator denominator).negative = negative := rfl
  rw [abs_value_sub _ negative (size_nonneg_of_ratio hratio), if_pos hsign,
    place_nearest_of_finite hfinite, hratio]

variable (hpos : 0 < denominator)
include hpos

theorem overflow_le_iff : overflow ≤ size ↔ infinityPlace ≤ nearestPlace numerator denominator := by
  rw [← mul_le_mul_iff_left₀ cast_unitsOfOne_pos, overflow_mul_unitsOfOne, ← hratio]
  constructor
  · exact infinityPlace_le_nearestPlace hpos
  · intro hinfinite
    by_contra hless
    have hfinite := nearestPlace_lt_infinityPlace hpos (not_le.mp hless)
    omega

/-- No double is nearer to a number than the one that it is rounded to. -/
theorem abs_value_nearest_sub_le
    (hfinite : (nearest negative numerator denominator).isInfinite = false) (y : Double) :
    |(nearest negative numerator denominator).value - (if negative then -size else size)| ≤
      |y.value - (if negative then -size else size)| := by
  rw [← mul_le_mul_iff_left₀ cast_unitsOfOne_pos, abs_value_nearest_sub hratio hfinite,
    abs_value_sub y negative (size_nonneg_of_ratio hratio), ← hratio]
  split
  · exact abs_magnitude_nearestPlace_sub_le_abs hpos y.place
  · -- a double of the other sign is no nearer than zero
    calc
      |(magnitude (nearestPlace numerator denominator) : ℚ) - numerator / denominator|
          ≤ |(magnitude 0 : ℚ) - numerator / denominator| :=
        abs_magnitude_nearestPlace_sub_le_abs hpos 0
      _ = numerator / denominator := abs_magnitude_zero_sub numerator denominator
      _ ≤ magnitude y.place + numerator / denominator :=
        le_add_of_nonneg_left (Nat.cast_nonneg _)

/-- If another double is as near, the last bit of the significand is zero. -/
theorem significand_nearest_even
    (hfinite : (nearest negative numerator denominator).isInfinite = false) {y : Double}
    (hne : y.value ≠ (nearest negative numerator denominator).value)
    (htie : |y.value - (if negative then -size else size)| =
      |(nearest negative numerator denominator).value - (if negative then -size else size)|) :
    significandOfPlace (nearest negative numerator denominator).place % 2 = 0 := by
  have htie' := congrArg (fun distance => distance * (unitsOfOne : ℚ)) htie
  rw [abs_value_nearest_sub hratio hfinite,
    abs_value_sub y negative (size_nonneg_of_ratio hratio), ← hratio] at htie'
  rw [place_nearest_of_finite hfinite]
  split at htie'
  · next hsign =>
      apply significandOfPlace_nearestPlace_even hpos _ htie'
      intro hsame
      apply hne
      rw [value, value, signedUnits, signedUnits, units_eq_magnitude, units_eq_magnitude,
        place_nearest_of_finite hfinite, hsame, hsign]
      rfl
  · -- a double of the other sign is as near only if it is zero
    have hnearest : |(magnitude (nearestPlace numerator denominator) : ℚ) -
        numerator / denominator| ≤ |(magnitude 0 : ℚ) - numerator / denominator| :=
      abs_magnitude_nearestPlace_sub_le_abs hpos 0
    rw [abs_magnitude_zero_sub, ← htie'] at hnearest
    have hnone : (magnitude y.place : ℚ) = 0 :=
      le_antisymm (add_le_iff_nonpos_left.mp hnearest) (Nat.cast_nonneg _)
    have hdifferent : magnitude 0 ≠ magnitude (nearestPlace numerator denominator) := by
      intro hsame
      have hunits : (nearest negative numerator denominator).units = 0 := by
        rw [units_eq_magnitude, place_nearest_of_finite hfinite, ← hsame,
          magnitude_of_lt binade_pos]
      exact hne ((value_eq_zero (Nat.cast_eq_zero.mp hnone)).trans (value_eq_zero hunits).symm)
    apply significandOfPlace_nearestPlace_even hpos hdifferent
    rw [abs_magnitude_zero_sub, ← htie', hnone, zero_add]

/-- A number with its sign is rounded to the nearest double. -/
theorem isNearest_nearest (negative : Bool) :
    IsNearest (if negative then -size else size) (nearest negative numerator denominator) := by
  have hsize := size_nonneg_of_ratio hratio
  have habs : |if negative then -size else size| = size := by
    split
    · rw [abs_neg, abs_of_nonneg hsize]
    · exact abs_of_nonneg hsize
  constructor
  · rw [isInfinite_nearest_iff, habs, overflow_le_iff hratio hpos]
  · intro hfinite y _
    exact abs_value_nearest_sub_le hratio hpos hfinite y
  · intro hfinite y _ hne htie
    exact significand_nearest_even hratio hpos hfinite hne htie

end Value

end Double

end Lisplet
