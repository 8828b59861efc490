import Lisplet.Proofs.Decimal.Grammar
import Lisplet.Proofs.Decimal.Significant
import Lisplet.Proofs.Double.Nearest

/-!
# The double that a numeral is read as

A numeral is read as the double nearest to what it denotes.  Where the place of the
leading digit alone decides the reader forms no fraction: the number is then so large
that it is rounded to infinity, or so small that it is rounded to zero.
-/

namespace Lisplet

namespace Decimal

/-! ## The size of digits -/

theorem ofDigits_cons (d : Nat) (ds : List Nat) :
    ofDigits (d :: ds) = d * 10 ^ ds.length + ofDigits ds := by
  rw [ofDigits, List.foldl_cons, foldl_digits]
  ring

theorem ofDigits_lt {ds : List Nat} (hds : ∀ d ∈ ds, d < 10) :
    ofDigits ds < 10 ^ ds.length := by
  induction ds with
  | nil => decide
  | cons d ds ih =>
      obtain ⟨hd, hrest⟩ := List.forall_mem_cons.mp hds
      have hless := ih hrest
      have hmul : d * 10 ^ ds.length ≤ 9 * 10 ^ ds.length := Nat.mul_le_mul_right _ (by omega)
      rw [ofDigits_cons, List.length_cons, pow_succ]
      omega

/-- Zeros at the front do not count. -/
@[simp]
theorem ofDigits_dropWhile (ds : List Nat) : ofDigits (ds.dropWhile (· == 0)) = ofDigits ds := by
  induction ds with
  | nil => rfl
  | cons d ds ih =>
      rw [List.dropWhile_cons]
      split
      · next hzero =>
          obtain rfl : d = 0 := by simpa using hzero
          rw [ih, ofDigits_cons, Nat.zero_mul, Nat.zero_add]
      · rfl

/-- A digit that is not zero at the front is worth its place. -/
theorem pow_le_ofDigits {d : Nat} (ds : List Nat) (hd : d ≠ 0) :
    10 ^ ds.length ≤ ofDigits (d :: ds) := by
  have hmul : 1 * 10 ^ ds.length ≤ d * 10 ^ ds.length :=
    Nat.mul_le_mul_right _ (Nat.one_le_iff_ne_zero.mpr hd)
  rw [ofDigits_cons]
  omega

end Decimal

/-! ## Sizes out of range -/

namespace Double

variable {numerator denominator : Nat}

theorem nearest_eq_zero (negative : Bool) (hpos : 0 < denominator)
    (hsmall : (numerator : ℚ) / denominator < 1 / 2) :
    nearest negative numerator denominator = zero negative := by
  have hfraction : (0 : ℚ) ≤ numerator / denominator :=
    div_nonneg (Nat.cast_nonneg _) (Nat.cast_nonneg _)
  have hone : (1 : ℚ) ≤ binade := by exact_mod_cast binade_pos
  have hmagnitude : magnitude (nearestPlace numerator denominator) = 0 := by
    apply magnitude_nearestPlace_of_lt hpos
    · linarith
    · rwa [Nat.cast_zero, zero_sub, abs_neg, abs_of_nonneg hfraction]
  have hplace : nearestPlace numerator denominator = 0 := by
    by_contra hne
    exact (magnitude_pos (Nat.pos_of_ne_zero hne)).ne' hmagnitude
  rw [nearest, hplace, zero]

theorem nearest_eq_infinity (negative : Bool) (hpos : 0 < denominator)
    (hlarge : overflow * unitsOfOne ≤ (numerator : ℚ) / denominator) :
    nearest negative numerator denominator = infinity negative := by
  rw [overflow_mul_unitsOfOne] at hlarge
  have hplace := infinityPlace_le_nearestPlace hpos hlarge
  simp only [nearest, infinity, ofPlace, Nat.min_eq_right hplace, Nat.min_self]

end Double

namespace Numeral

open Decimal Double

/-- The fraction of units that a whole number at a power of ten is rounded from. -/
theorem exists_nearestDouble_eq (negative : Bool) (significand : Nat) (scale : ℤ) :
    ∃ numerator denominator, 0 < denominator ∧
      nearestDouble negative significand scale = nearest negative numerator denominator ∧
      (numerator : ℚ) / denominator = significand * 10 ^ scale * unitsOfOne := by
  rw [nearestDouble]
  split
  · next hscale =>
      obtain ⟨power, rfl⟩ := Int.eq_ofNat_of_zero_le hscale
      refine ⟨_, _, Nat.one_pos, rfl, ?_⟩
      rw [Int.toNat_natCast, zpow_natCast, Nat.cast_one, div_one, Nat.cast_mul, Nat.cast_mul]
      exact_mod_cast rfl
  · next hscale =>
      obtain ⟨power, rfl⟩ : ∃ power : Nat, scale = -power := ⟨scale.natAbs, by omega⟩
      refine ⟨_, _, Nat.pow_pos (by decide), rfl, ?_⟩
      rw [Int.natAbs_neg, Int.natAbs_natCast, zpow_neg, zpow_natCast, ← div_eq_mul_inv,
        div_mul_eq_mul_div, Nat.cast_mul]
      exact_mod_cast rfl

section Digits

variable {n : Numeral}

/-- The digits from the first one on that is not zero. -/
def leading (n : Numeral) : List Nat := (n.whole ++ n.fraction).dropWhile (· == 0)

theorem size_eq_zero (hzero : n.leading = []) : n.size = 0 := by
  have hsignificand : n.significand = 0 := by
    rw [significand, ← ofDigits_dropWhile, ← leading, hzero, ofDigits, List.foldl_nil]
  rw [size_eq, hsignificand, Nat.cast_zero, zero_mul]

/-- The place of the leading digit gives the size up to a factor of ten. -/
theorem size_bounds (hdigits : ∀ d ∈ n.whole ++ n.fraction, d < 10) (hne : n.leading ≠ []) :
    (10 : ℚ) ^ (n.leading.length + n.scale - 1) ≤ n.size ∧
      n.size < 10 ^ (n.leading.length + n.scale) := by
  have hsignificand : n.significand = ofDigits n.leading := (ofDigits_dropWhile _).symm
  have hscale : (0 : ℚ) < 10 ^ n.scale := zpow_pos (by norm_num) _
  have hless : ∀ d ∈ n.leading, d < 10 := fun d hd =>
    hdigits d ((List.dropWhile_sublist _).mem hd)
  obtain ⟨d, ds, hcons⟩ := List.exists_cons_of_ne_nil hne
  have hd : d ≠ 0 := by
    have hhead := List.head?_dropWhile_not (· == 0) (n.whole ++ n.fraction)
    rw [← leading, hcons] at hhead
    simpa using hhead
  rw [size_eq, hsignificand]
  constructor
  · have hlow : (10 : ℚ) ^ ds.length ≤ ofDigits n.leading := by
      rw [hcons]
      exact_mod_cast pow_le_ofDigits ds hd
    have hplace : (n.leading.length : ℤ) + n.scale - 1 = ds.length + n.scale := by
      rw [hcons, List.length_cons]
      omega
    rw [hplace, zpow_add₀ (by norm_num), zpow_natCast]
    exact mul_le_mul_of_nonneg_right hlow hscale.le
  · have hhigh : (ofDigits n.leading : ℚ) < 10 ^ n.leading.length := by
      exact_mod_cast ofDigits_lt hless
    rw [zpow_add₀ (by norm_num), zpow_natCast]
    exact mul_lt_mul_of_pos_right hhigh hscale

/-- Where the place of the leading digit decides, rounding gives the same double. -/
theorem toDouble_eq_nearestDouble (hdigits : ∀ d ∈ n.whole ++ n.fraction, d < 10) :
    n.toDouble = nearestDouble n.negative n.significand n.scale := by
  have hone := cast_unitsOfOne_pos
  obtain ⟨numerator, denominator, hpos, hnearest, hratio⟩ :=
    exists_nearestDouble_eq n.negative n.significand n.scale
  rw [← size_eq] at hratio
  rw [toDouble, ← leading, hnearest]
  split
  · next hsmall =>
      symm
      apply nearest_eq_zero _ hpos
      rw [hratio]
      by_cases hzero : n.leading = []
      · rw [size_eq_zero hzero, zero_mul]
        norm_num
      · have hplace : n.leading.length + n.scale ≤ (-331 : ℤ) := by
          simp [hzero] at hsmall
          omega
        have hunits : (unitsOfOne : ℚ) ≤ 10 ^ (324 : ℤ) := by exact_mod_cast unitsOfOne_le_pow
        calc
          n.size * unitsOfOne
              ≤ 10 ^ (n.leading.length + n.scale) * unitsOfOne :=
            mul_le_mul_of_nonneg_right (size_bounds hdigits hzero).2.le hone.le
          _ ≤ 10 ^ (-331 : ℤ) * 10 ^ (324 : ℤ) :=
            mul_le_mul (zpow_le_zpow_right₀ (by norm_num) hplace) hunits hone.le
              (zpow_nonneg (by norm_num) _)
          _ < 1 / 2 := by
            rw [← zpow_add₀ (by norm_num)]
            norm_num
  · next hsmall =>
      split
      · next hlarge =>
          have hne : n.leading ≠ [] := by
            intro hzero
            simp [hzero] at hsmall
          symm
          apply nearest_eq_infinity _ hpos
          rw [hratio]
          apply mul_le_mul_of_nonneg_right _ hone.le
          calc
            overflow ≤ 10 ^ (310 : ℤ) := by exact_mod_cast overflow_le
            _ ≤ 10 ^ (n.leading.length + n.scale - 1) :=
              zpow_le_zpow_right₀ (by norm_num) (by omega)
            _ ≤ n.size := (size_bounds hdigits hne).1
      · rfl

/-- The fraction of units that a numeral is rounded from is its size. -/
theorem exists_toDouble_eq (hdigits : ∀ d ∈ n.whole ++ n.fraction, d < 10) :
    ∃ numerator denominator, 0 < denominator ∧
      n.toDouble = nearest n.negative numerator denominator ∧
      (numerator : ℚ) / denominator = n.size * unitsOfOne := by
  rw [toDouble_eq_nearestDouble hdigits, size_eq]
  exact exists_nearestDouble_eq n.negative n.significand n.scale

end Digits

/-- A numeral is read as the double nearest to what it denotes. -/
theorem Written.isNearest_toDouble {cs : List Char} {n : Numeral} (h : Written cs n) :
    IsNearest n.value n.toDouble ∧ n.toDouble.negative = n.negative := by
  obtain ⟨numerator, denominator, hpos, hdouble, hratio⟩ := exists_toDouble_eq h.digits_lt
  rw [hdouble]
  exact ⟨isNearest_nearest hratio hpos n.negative, rfl⟩

end Numeral

end Lisplet
