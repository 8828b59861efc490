import Mathlib.Algebra.Order.Field.Rat
import Mathlib.Tactic.FieldSimp
import Mathlib.Tactic.Ring
import Lisplet.Decimal.Numeral

/-!
# The grammar of numerals

A numeral is written as an optional sign, digits with at most one point among or around
them, and an optional exponent.  The reader takes every part as far as it goes, and what
it accepts is exactly what the grammar describes: each part ends where the next one
starts, so that a text has one set of parts only.
-/

namespace Lisplet

namespace Decimal

def Digits (cs : List Char) (ds : List Nat) : Prop := cs.map Text.digitValue? = ds.map some

/-- A sign, which may be missing, and whether it is a minus sign. -/
inductive Sign : List Char → Bool → Prop where
  | absent : Sign [] false
  | plus : Sign ['+'] false
  | minus : Sign ['-'] true

/-- Digits before and after a point.  One side may be empty, and without digits after it
the point may be missing. -/
inductive Mantissa : List Char → List Nat → List Nat → Prop where
  | whole {cs : List Char} {ds : List Nat} : Digits cs ds → ds ≠ [] → Mantissa cs ds []
  | pointed {cs fraction : List Char} {ds es : List Nat} : Digits cs ds → ds ≠ [] →
      Digits fraction es → Mantissa (cs ++ '.' :: fraction) ds es
  | fraction {fraction : List Char} {es : List Nat} : Digits fraction es → es ≠ [] →
      Mantissa ('.' :: fraction) [] es

inductive Exponent : List Char → Int → Prop where
  | absent : Exponent [] 0
  | present {mark : Char} {sign cs : List Char} {negative : Bool} {ds : List Nat} :
      mark = 'e' ∨ mark = 'E' → Sign sign negative → Digits cs ds → ds ≠ [] →
      Exponent (mark :: (sign ++ cs))
        (if negative then -(ofDigits ds : Int) else ofDigits ds)

end Decimal

namespace Numeral

open Decimal

/-- A text is written by the grammar of numerals, with these parts. -/
inductive Written : List Char → Numeral → Prop where
  | intro {sign mantissa tail : List Char} {negative : Bool} {whole fraction : List Nat}
      {exponent : Int} : Sign sign negative → Mantissa mantissa whole fraction →
      Exponent tail exponent →
      Written (sign ++ (mantissa ++ tail)) ⟨negative, whole, fraction, exponent⟩

end Numeral

namespace Decimal

/-! ## Digits -/

/-- A text that does not go on with a digit. -/
def EndsDigits (rest : List Char) : Prop := ∀ c ∈ rest.head?, Text.digitValue? c = none

theorem endsDigits_nil : EndsDigits [] := by simp [EndsDigits]

namespace Digits

theorem nil : Digits [] [] := rfl

theorem cons_iff {c : Char} {cs : List Char} {d : Nat} {ds : List Nat} :
    Digits (c :: cs) (d :: ds) ↔ Text.digitValue? c = some d ∧ Digits cs ds := by
  simp [Digits]

theorem append {cs later : List Char} {ds es : List Nat} (h : Digits cs ds)
    (hlater : Digits later es) : Digits (cs ++ later) (ds ++ es) := by
  rw [Digits, List.map_append, List.map_append, h, hlater]

theorem exists_cons {cs : List Char} {ds : List Nat} (h : Digits cs ds) (hne : ds ≠ []) :
    ∃ c later d es, cs = c :: later ∧ ds = d :: es ∧ Text.digitValue? c = some d ∧
      Digits later es := by
  cases cs with
  | nil => exact absurd (List.map_eq_nil_iff.mp h.symm) hne
  | cons c later =>
      cases ds with
      | nil => exact absurd rfl hne
      | cons d es => exact ⟨c, later, d, es, rfl, rfl, cons_iff.mp h⟩

theorem lt_ten {cs : List Char} {ds : List Nat} (h : Digits cs ds) : ∀ d ∈ ds, d < 10 := by
  intro d hd
  have hmem : some d ∈ cs.map Text.digitValue? := by
    rw [h]
    exact List.mem_map_of_mem hd
  obtain ⟨c, -, hc⟩ := List.mem_map.mp hmem
  exact Text.digitValue?_lt hc

theorem takeDigits_append {cs rest : List Char} {ds : List Nat} (h : Digits cs ds)
    (hrest : EndsDigits rest) : takeDigits (cs ++ rest) = (ds, rest) := by
  induction cs generalizing ds with
  | nil =>
      obtain rfl : ds = [] := List.map_eq_nil_iff.mp h.symm
      cases rest with
      | nil => rfl
      | cons c rest => rw [List.nil_append, takeDigits, hrest c rfl]
  | cons c cs ih =>
      obtain ⟨_, _, d, es, hcs, rfl, hc, hlater⟩ := h.exists_cons (by rintro rfl; cases h)
      cases hcs
      rw [List.cons_append, takeDigits, hc]
      dsimp only
      rw [ih hlater]

end Digits

theorem exists_takeDigits (cs : List Char) :
    ∃ front ds rest, takeDigits cs = (ds, rest) ∧ cs = front ++ rest ∧ Digits front ds ∧
      EndsDigits rest := by
  induction cs with
  | nil => exact ⟨[], [], [], rfl, rfl, .nil, endsDigits_nil⟩
  | cons c cs ih =>
      rw [takeDigits]
      cases hc : Text.digitValue? c with
      | none => exact ⟨[], [], c :: cs, rfl, rfl, .nil, by rintro d ⟨⟩; exact hc⟩
      | some d =>
          obtain ⟨front, ds, rest, htake, rfl, hdigits, hrest⟩ := ih
          refine ⟨c :: front, d :: ds, rest, ?_, rfl, Digits.cons_iff.mpr ⟨hc, hdigits⟩, hrest⟩
          rw [htake]

/-! ## Signs -/

def Unsigned (rest : List Char) : Prop := ∀ c ∈ rest.head?, c ≠ '-' ∧ c ≠ '+'

theorem unsigned_of_digit {c : Char} {cs : List Char} {d : Nat}
    (hc : Text.digitValue? c = some d) : Unsigned (c :: cs) := by
  rintro _ ⟨⟩
  have hsigns : Text.digitValue? '-' = none ∧ Text.digitValue? '+' = none := by decide
  constructor
  · rintro rfl
    exact Option.some_ne_none d (hc.symm.trans hsigns.1)
  · rintro rfl
    exact Option.some_ne_none d (hc.symm.trans hsigns.2)

theorem Digits.unsigned_append {cs : List Char} {ds : List Nat} (h : Digits cs ds) (hne : ds ≠ [])
    (rest : List Char) : Unsigned (cs ++ rest) := by
  obtain ⟨c, later, d, es, rfl, rfl, hc, -⟩ := h.exists_cons hne
  exact unsigned_of_digit hc

theorem Mantissa.unsigned_append {cs : List Char} {ds es : List Nat} (h : Mantissa cs ds es)
    (rest : List Char) : Unsigned (cs ++ rest) := by
  cases h with
  | whole hdigits hne => exact hdigits.unsigned_append hne rest
  | pointed hdigits hne _ =>
      rw [List.append_assoc]
      exact hdigits.unsigned_append hne _
  | fraction _ _ =>
      rintro c ⟨⟩
      decide

theorem Sign.takeSign_append {sign rest : List Char} {negative : Bool} (h : Sign sign negative)
    (hrest : Unsigned rest) : takeSign (sign ++ rest) = (negative, rest) := by
  cases h with
  | plus | minus => rfl
  | absent =>
      rw [List.nil_append, takeSign.eq_def]
      split
      · exact absurd rfl (hrest '-' rfl).1
      · exact absurd rfl (hrest '+' rfl).2
      · rfl

theorem exists_takeSign (cs : List Char) :
    ∃ sign negative rest, takeSign cs = (negative, rest) ∧ cs = sign ++ rest ∧
      Sign sign negative := by
  rw [takeSign.eq_def]
  split
  · exact ⟨['-'], true, _, rfl, rfl, .minus⟩
  · exact ⟨['+'], false, _, rfl, rfl, .plus⟩
  · exact ⟨[], false, cs, rfl, rfl, .absent⟩

/-! ## Exponents -/

theorem exponent?_eq_some_iff {cs : List Char} {exponent : Int} :
    exponent? cs = some exponent ↔ Exponent cs exponent := by
  constructor
  · intro h
    cases cs with
    | nil =>
        cases h
        exact .absent
    | cons mark cs =>
        rw [exponent?] at h
        split at h
        · next hmark =>
            obtain ⟨sign, negative, rest, hsign, rfl, hnegative⟩ := exists_takeSign cs
            obtain ⟨front, ds, last, hdigits, rfl, hfront, -⟩ := exists_takeDigits rest
            rw [hsign] at h
            dsimp only at h
            rw [hdigits] at h
            split at h
            · next heq =>
                cases heq
                cases h
                rw [List.append_nil]
                exact .present (by simpa using hmark) hnegative hfront (List.cons_ne_nil _ _)
            · cases h
        · cases h
  · intro h
    cases h with
    | absent => rfl
    | present hmark hsign hdigits hne =>
        have hrest := hsign.takeSign_append (hdigits.unsigned_append hne [])
        have htake := hdigits.takeDigits_append endsDigits_nil
        obtain ⟨_, _, d, es, -, rfl, -, -⟩ := hdigits.exists_cons hne
        rw [List.append_nil] at hrest htake
        rw [exponent?, if_pos (by simpa using hmark), hrest]
        dsimp only
        rw [htake]

/-- What follows the digits of a numeral ends them and is no point. -/
theorem Exponent.ends {tail : List Char} {exponent : Int} (h : Exponent tail exponent) :
    EndsDigits tail ∧ ∀ rest, tail ≠ '.' :: rest := by
  cases h with
  | absent => exact ⟨endsDigits_nil, by simp⟩
  | present hmark _ _ _ =>
      constructor
      · rintro c ⟨⟩
        rcases hmark with rfl | rfl <;> decide
      · rintro rest ⟨⟩
        exact absurd hmark (by decide)

/-! ## The digits around the point -/

theorem takeFraction_eq {rest : List Char} (hpoint : ∀ later, rest ≠ '.' :: later) :
    takeFraction rest = ([], rest) := by
  rw [takeFraction.eq_def]
  split
  · next later => exact absurd rfl (hpoint later)
  · rfl

theorem endsDigits_point (rest : List Char) : EndsDigits ('.' :: rest) := by
  rintro c ⟨⟩
  decide

theorem Mantissa.ne_nil {cs : List Char} {ds es : List Nat} (h : Mantissa cs ds es) :
    (ds.isEmpty && es.isEmpty) = false := by
  cases h with
  | whole _ hne | pointed _ hne _ => simp [hne]
  | fraction _ hne => simp [hne]

theorem Mantissa.exists_takeDigits {cs tail : List Char} {ds es : List Nat} {exponent : Int}
    (h : Mantissa cs ds es) (htail : Exponent tail exponent) :
    ∃ rest, takeDigits (cs ++ tail) = (ds, rest) ∧ takeFraction rest = (es, tail) := by
  obtain ⟨hends, hpoint⟩ := htail.ends
  cases h with
  | whole hdigits _ =>
      exact ⟨tail, hdigits.takeDigits_append hends, takeFraction_eq hpoint⟩
  | @pointed cs fraction _ _ hdigits _ hfraction =>
      refine ⟨'.' :: (fraction ++ tail), ?_, hfraction.takeDigits_append hends⟩
      rw [List.append_assoc, List.cons_append]
      exact hdigits.takeDigits_append (endsDigits_point _)
  | @fraction fraction _ hfraction _ =>
      refine ⟨'.' :: (fraction ++ tail), ?_, hfraction.takeDigits_append hends⟩
      exact Digits.nil.takeDigits_append (endsDigits_point _)

/-- Digits, and what a point behind them leads to, make up a mantissa. -/
theorem mantissa_of_takeFraction {cs rest tail : List Char} {ds es : List Nat}
    (hdigits : Digits cs ds) (htake : takeFraction rest = (es, tail))
    (hne : (ds.isEmpty && es.isEmpty) = false) :
    ∃ mantissa, cs ++ rest = mantissa ++ tail ∧ Mantissa mantissa ds es := by
  rw [takeFraction.eq_def] at htake
  split at htake
  · next later =>
      obtain ⟨fraction, _, _, hlater, rfl, hfraction, -⟩ := Decimal.exists_takeDigits later
      rw [hlater] at htake
      cases htake
      cases hds : ds.isEmpty with
      | true =>
          obtain rfl := List.isEmpty_iff.mp hds
          obtain rfl : cs = [] := List.map_eq_nil_iff.mp hdigits
          exact ⟨'.' :: fraction, rfl, .fraction hfraction (by simpa using hne)⟩
      | false =>
          refine ⟨cs ++ '.' :: fraction, ?_, .pointed hdigits (by simpa using hds) hfraction⟩
          rw [List.append_assoc, List.cons_append]
  · cases htake
    exact ⟨cs, rfl, .whole hdigits (by simpa using hne)⟩

end Decimal

namespace Numeral

open Decimal

/-- The texts that are read as numerals are those that the grammar describes, and they
are read with the parts that they are written with. -/
theorem ofChars?_eq_some_iff {cs : List Char} {n : Numeral} :
    ofChars? cs = some n ↔ Written cs n := by
  constructor
  · intro h
    obtain ⟨sign, negative, rest, hsign, rfl, hnegative⟩ := exists_takeSign cs
    obtain ⟨front, whole, later, hdigits, rfl, hfront, -⟩ := exists_takeDigits rest
    obtain ⟨fraction, tail, hfraction⟩ : ∃ fraction tail, takeFraction later = (fraction, tail) :=
      ⟨_, _, rfl⟩
    rw [ofChars?, hsign] at h
    dsimp only at h
    rw [hdigits] at h
    dsimp only at h
    rw [hfraction] at h
    dsimp only at h
    split at h
    · cases h
    · next hne =>
        obtain ⟨exponent, hexponent, rfl⟩ := Option.map_eq_some_iff.mp h
        obtain ⟨mantissa, htext, hmantissa⟩ :=
          mantissa_of_takeFraction hfront hfraction (Bool.eq_false_of_not_eq_true hne)
        rw [htext]
        exact .intro hnegative hmantissa (exponent?_eq_some_iff.mp hexponent)
  · intro h
    cases h with
    | @intro _ _ _ _ _ _ _ hsign hmantissa htail =>
        obtain ⟨rest, hdigits, hfraction⟩ := hmantissa.exists_takeDigits htail
        rw [ofChars?, hsign.takeSign_append (hmantissa.unsigned_append _)]
        dsimp only
        rw [hdigits]
        dsimp only
        rw [hfraction]
        dsimp only
        rw [hmantissa.ne_nil, if_neg Bool.false_ne_true, exponent?_eq_some_iff.mpr htail]
        rfl

theorem Written.digits_lt {cs : List Char} {n : Numeral} (h : Written cs n) :
    ∀ d ∈ n.whole ++ n.fraction, d < 10 := by
  cases h with
  | intro _ hmantissa _ =>
      cases hmantissa with
      | whole hdigits _ => simpa using hdigits.lt_ten
      | pointed hdigits _ hfraction => exact (hdigits.append hfraction).lt_ten
      | fraction hfraction _ => exact hfraction.lt_ten

/-! ## What a numeral denotes -/

def size (n : Numeral) : ℚ :=
  (ofDigits n.whole + ofDigits n.fraction / 10 ^ n.fraction.length) * 10 ^ n.exponent

def value (n : Numeral) : ℚ := if n.negative then -n.size else n.size

end Numeral

namespace Decimal

theorem foldl_digits (value : Nat) (ds : List Nat) :
    ds.foldl (fun value digit => value * 10 + digit) value =
      value * 10 ^ ds.length + ofDigits ds := by
  induction ds generalizing value with
  | nil => simp [ofDigits]
  | cons d ds ih =>
      rw [ofDigits, List.foldl_cons, List.foldl_cons, ih, ih (0 * 10 + d), List.length_cons]
      ring

theorem ofDigits_append (ds es : List Nat) :
    ofDigits (ds ++ es) = ofDigits ds * 10 ^ es.length + ofDigits es := by
  rw [ofDigits, List.foldl_append, foldl_digits]
  rfl

end Decimal

namespace Numeral

open Decimal

/-- The point only moves the exponent. -/
theorem size_eq (n : Numeral) : n.size = n.significand * 10 ^ n.scale := by
  rw [size, significand, scale, ofDigits_append, zpow_sub₀ (by norm_num), zpow_natCast]
  push_cast
  field_simp

end Numeral

end Lisplet
