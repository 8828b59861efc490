import Lisplet.Proofs.Decimal.Grammar
import Lisplet.Proofs.Decimal.Spelling

/-!
# Reading what is written

The two layouts of fifteen digits are numerals.  Neither the point nor the zeros that
are dropped or filled in change the value, so that the numeral denotes the digits at
their exponent.
-/

namespace Lisplet.Decimal

/-! ## Digits -/

def AllDigits (cs : List Char) : Prop := ∀ c ∈ cs, c.isDigit = true

def digitValue (c : Char) : Nat := c.toNat - '0'.toNat

theorem digitValue?_eq {c : Char} (hc : c.isDigit = true) :
    Text.digitValue? c = some (digitValue c) := by
  obtain ⟨hlow, hhigh⟩ := toNat_bounds hc
  rw [Text.digitValue?, Text.digitZeros, List.find?_cons_of_pos (by simp [hlow, hhigh])]
  rfl

theorem allDigits_digits (n : Nat) : AllDigits (digits n) := fun _ hc =>
  Nat.isDigit_of_mem_toDigits (by decide) (by decide) hc

theorem allDigits_replicate (n : Nat) : AllDigits (List.replicate n '0') := by
  intro c hc
  rw [List.eq_of_mem_replicate hc]
  rfl

theorem AllDigits.append {front back : List Char} (hfront : AllDigits front)
    (hback : AllDigits back) : AllDigits (front ++ back) := by
  intro c hc
  rcases List.mem_append.mp hc with hc | hc
  · exact hfront c hc
  · exact hback c hc

theorem AllDigits.of_sublist {cs ds : List Char} (hds : AllDigits ds) (h : cs.Sublist ds) :
    AllDigits cs := fun c hc => hds c (h.mem hc)

/-- The value of digits, as whole numbers are read. -/
def valueOf (cs : List Char) : Nat := Nat.ofDigitChars 10 cs 0

@[simp]
theorem ofDigits_map_digitValue (cs : List Char) : ofDigits (cs.map digitValue) = valueOf cs := by
  rw [ofDigits, valueOf, Nat.ofDigitChars_eq_foldl, List.foldl_map]
  simp only [Nat.mul_comm 10, digitValue]

@[simp]
theorem valueOf_digits (n : Nat) : valueOf (digits n) = n :=
  Nat.ofDigitChars_toDigits (by decide) (by decide)

@[simp]
theorem valueOf_append_replicate (cs : List Char) (zeros : Nat) :
    valueOf (cs ++ List.replicate zeros '0') = valueOf cs * 10 ^ zeros := by
  rw [valueOf, Nat.ofDigitChars_append, Nat.ofDigitChars_replicate_zero, Nat.mul_comm, valueOf]

@[simp]
theorem valueOf_replicate_append (zeros : Nat) (cs : List Char) :
    valueOf (List.replicate zeros '0' ++ cs) = valueOf cs := by
  rw [valueOf, Nat.ofDigitChars_append, Nat.ofDigitChars_replicate_zero, Nat.mul_zero, valueOf]

/-- The zeros that are dropped at the end. -/
theorem exists_dropTrailingZeros_append (cs : List Char) :
    ∃ zeros, cs = dropTrailingZeros cs ++ List.replicate zeros '0' := by
  refine ⟨(cs.reverse.takeWhile (· == '0')).length, ?_⟩
  have hzeros : cs.reverse.takeWhile (· == '0') =
      List.replicate (cs.reverse.takeWhile (· == '0')).length '0' := by
    apply List.eq_replicate_of_mem
    intro c hc
    simpa using List.all_eq_true.mp List.all_takeWhile c hc
  calc
    cs = (cs.reverse.takeWhile (· == '0') ++ cs.reverse.dropWhile (· == '0')).reverse := by
      rw [List.takeWhile_append_dropWhile, List.reverse_reverse]
    _ = dropTrailingZeros cs ++ (cs.reverse.takeWhile (· == '0')).reverse := by
      rw [List.reverse_append, dropTrailingZeros]
    _ = dropTrailingZeros cs ++
          List.replicate (cs.reverse.takeWhile (· == '0')).length '0' := by
      rw [hzeros, List.reverse_replicate, List.length_replicate]

theorem sublist_dropTrailingZeros (cs : List Char) : (dropTrailingZeros cs).Sublist cs := by
  have hreverse : List.Sublist _ cs.reverse.reverse :=
    (List.dropWhile_sublist (· == '0')).reverse
  rwa [List.reverse_reverse] at hreverse

/-! ## The parts of a numeral -/

theorem AllDigits.digits {cs : List Char} (hcs : AllDigits cs) : Digits cs (cs.map digitValue) := by
  rw [Digits, List.map_map]
  exact List.map_congr_left fun c hc => digitValue?_eq (hcs c hc)

/-- The digits around the point, whether the point was needed or not. -/
theorem mantissa_withPoint {whole fraction : List Char} (hwhole : AllDigits whole)
    (hne : whole ≠ []) (hfraction : AllDigits fraction) :
    Mantissa (withPoint whole fraction) (whole.map digitValue) (fraction.map digitValue) := by
  have hvalues : whole.map digitValue ≠ [] := by simpa using hne
  cases fraction with
  | nil => exact .whole hwhole.digits hvalues
  | cons c fraction => exact .pointed hwhole.digits hvalues hfraction.digits

/-- A numeral may have a minus sign. -/
def signed (negative : Bool) (cs : List Char) : List Char := if negative then '-' :: cs else cs

theorem written_signed (negative : Bool) {whole fraction tail : List Char} {exponent : Int}
    (hwhole : AllDigits whole) (hne : whole ≠ []) (hfraction : AllDigits fraction)
    (htail : Exponent tail exponent) :
    Numeral.Written (signed negative (withPoint whole fraction ++ tail))
      ⟨negative, whole.map digitValue, fraction.map digitValue, exponent⟩ := by
  have hmantissa := mantissa_withPoint hwhole hne hfraction
  cases negative with
  | true => exact .intro .minus hmantissa htail
  | false => exact .intro .absent hmantissa htail

/-- The exponent that is written after the digits, with zeros before its own. -/
theorem exponent_digits (exponent : Int) (zeros : Nat) :
    Exponent ('e' :: (if exponent < 0 then '-' else '+') ::
      (List.replicate zeros '0' ++ digits exponent.natAbs)) exponent := by
  have hall := (allDigits_replicate zeros).append (allDigits_digits exponent.natAbs)
  have hne : (List.replicate zeros '0' ++ digits exponent.natAbs).map digitValue ≠ [] := by
    simp [digits]
  have hvalue : ofDigits ((List.replicate zeros '0' ++ digits exponent.natAbs).map digitValue) =
      exponent.natAbs := by
    rw [ofDigits_map_digitValue, valueOf_replicate_append, valueOf_digits]
  by_cases hnegative : exponent < 0
  · have hpresent := Exponent.present (.inl rfl) .minus hall.digits hne
    rw [if_pos rfl, hvalue, ← Int.eq_neg_natAbs_of_nonpos (Int.le_of_lt hnegative)] at hpresent
    rw [if_pos hnegative]
    exact hpresent
  · have hpresent := Exponent.present (.inl rfl) .plus hall.digits hne
    rw [if_neg Bool.false_ne_true, hvalue, Int.natAbs_of_nonneg (Int.not_lt.mp hnegative)]
      at hpresent
    rw [if_neg hnegative]
    exact hpresent

/-! ## The two layouts -/

/-- A text is a numeral, with either sign, for a number of this size. -/
def Denotes (cs : List Char) (size : ℚ) : Prop :=
  ∀ negative, ∃ n : Numeral, Numeral.Written (signed negative cs) n ∧ n.negative = negative ∧
    n.size = size

/-- The digits around a point denote the number that they make together with the dropped
zeros. -/
theorem denotes_withPoint {whole fraction tail : List Char} {exponent : Int}
    (hwhole : AllDigits whole) (hne : whole ≠ []) (hfraction : AllDigits fraction)
    (htail : Exponent tail exponent) :
    Denotes (withPoint whole (dropTrailingZeros fraction) ++ tail)
      (valueOf (whole ++ fraction) * 10 ^ (exponent - fraction.length)) := by
  intro negative
  obtain ⟨zeros, hzeros⟩ := exists_dropTrailingZeros_append fraction
  have hkept : AllDigits (dropTrailingZeros fraction) :=
    hfraction.of_sublist (sublist_dropTrailingZeros fraction)
  have hlength : (fraction.length : ℤ) = (dropTrailingZeros fraction).length + zeros := by
    have hsum := congrArg List.length hzeros
    rw [List.length_append, List.length_replicate] at hsum
    exact_mod_cast hsum
  have hvalue : valueOf (whole ++ fraction) =
      valueOf (whole ++ dropTrailingZeros fraction) * 10 ^ zeros := by
    rw [← valueOf_append_replicate, List.append_assoc, ← hzeros]
  refine ⟨_, written_signed negative hwhole hne hkept htail, rfl, ?_⟩
  rw [Numeral.size_eq, Numeral.significand, Numeral.scale, ← List.map_append,
    ofDigits_map_digitValue, List.length_map, hvalue, hlength, sub_add_eq_sub_sub,
    zpow_sub₀ (by norm_num) _ (zeros : ℤ), zpow_natCast]
  push_cast
  field_simp

section Layouts

variable {significant : List Char} {exponent : Int}

/-- A number with its point after the first of the digits, or after some more. -/
theorem denotes_take_drop (hdigits : AllDigits significant) (hlength : significant.length = 15)
    (whole : Nat) (hwhole : whole < 15) {tail : List Char} (htail : Exponent tail exponent) :
    Denotes (withPoint (significant.take (whole + 1))
        (dropTrailingZeros (significant.drop (whole + 1))) ++ tail)
      (valueOf significant * 10 ^ (exponent + whole - 14)) := by
  have hne : significant.take (whole + 1) ≠ [] := by
    apply List.ne_nil_of_length_pos
    rw [List.length_take, hlength]
    omega
  have hpoint := denotes_withPoint (hdigits.of_sublist (List.take_sublist (whole + 1) significant))
    hne (hdigits.of_sublist (List.drop_sublist (whole + 1) significant)) htail
  have hscale : exponent - ((significant.drop (whole + 1)).length : Int) =
      exponent + whole - 14 := by
    rw [List.length_drop, hlength]
    omega
  rwa [List.take_append_drop, hscale] at hpoint

theorem denotes_scientific (hdigits : AllDigits significant) (hlength : significant.length = 15)
    (exponent : Int) :
    Denotes (scientific significant exponent) (valueOf significant * 10 ^ (exponent - 14)) := by
  have hpoint := denotes_take_drop hdigits hlength 0 (by decide)
    (exponent_digits exponent (2 - (digits exponent.natAbs).length))
  rwa [Int.natCast_zero, Int.add_zero] at hpoint

theorem denotes_fixed (hdigits : AllDigits significant) (hlength : significant.length = 15)
    (hhigh : exponent < 15) :
    Denotes (fixed significant exponent) (valueOf significant * 10 ^ (exponent - 14)) := by
  rw [fixed]
  split
  · next hlow =>
      obtain ⟨whole, rfl⟩ := Int.eq_ofNat_of_zero_le hlow
      have hpoint := denotes_take_drop hdigits hlength whole (by omega) .absent
      rw [List.append_nil, Int.zero_add] at hpoint
      exact hpoint
  · next hlow =>
      have hfraction := (allDigits_replicate (exponent.natAbs - 1)).append hdigits
      have hzero : AllDigits ['0'] := by simp [AllDigits]
      have hvalue : valueOf (['0'] ++ (List.replicate (exponent.natAbs - 1) '0' ++ significant)) =
          valueOf significant := by
        rw [← List.append_assoc, show ['0'] = List.replicate 1 '0' from rfl,
          List.replicate_append_replicate, valueOf_replicate_append]
      have hpoint := denotes_withPoint hzero (by simp) hfraction .absent
      have hscale : (0 : Int) -
          ((List.replicate (exponent.natAbs - 1) '0' ++ significant).length : Int) =
          exponent - 14 := by
        rw [List.length_append, List.length_replicate, hlength]
        omega
      rwa [List.append_nil, hvalue, hscale] at hpoint

end Layouts

end Lisplet.Decimal
