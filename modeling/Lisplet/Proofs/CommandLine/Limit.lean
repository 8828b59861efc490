import Lisplet.Proofs.Decimal.Integer
import Lisplet.Settings

/-!
# The limit that the environment sets

The room for nested calls is read from a variable of the environment.  A variable that is
absent or blank sets no limit, and an integer between blanks sets one if it is positive.
Everything else is refused with a message that names the variable.
-/

namespace Lisplet

namespace Settings

open Decimal Text

variable {environment : Environment} {name : String}

/-- A variable is absent, or holds blanks only. -/
def Unset (environment : Environment) (name : String) : Prop :=
  ∀ raw ∈ environment.lookup name, AllBlank raw.toList

inductive Holds (environment : Environment) (name : String) : Int → Prop where
  | intro {front cs back : List Char} {value : Int} :
      environment.lookup name = some (String.ofList (front ++ (cs ++ back))) → AllBlank front →
      WrittenInteger cs value → AllBlank back → Holds environment name value

theorem unset_iff {raw : String} (hraw : environment.lookup name = some raw) :
    Unset environment name ↔ isAllBlank raw = true := by
  rw [isAllBlank_iff]
  constructor
  · intro hunset
    exact hunset raw hraw
  · intro hblank other hother
    obtain rfl := Option.some.inj (hraw.symm.trans hother)
    exact hblank

theorem positive?_of_unset (h : Unset environment name) :
    positive? environment name = .ok none := by
  rw [positive?]
  split
  · rfl
  · next raw hraw => rw [if_pos ((unset_iff hraw).mp h)]

theorem Holds.not_unset {value : Int} (h : Holds environment name value) :
    ¬ Unset environment name := by
  cases h with
  | intro hraw _ hwritten _ =>
      intro hunset
      have hblank := hunset _ hraw
      obtain ⟨c, hc⟩ := List.exists_mem_of_ne_nil _ hwritten.ne_nil
      have hinside := hblank c (by simp [hc])
      rw [hwritten.isBlank c hc] at hinside
      cases hinside

theorem positive?_of_holds {value : Int} (h : Holds environment name value) :
    positive? environment name =
      if 0 < value then .ok (some value.toNat) else .error (.notPositive name value) := by
  have hset := h.not_unset
  cases h with
  | @intro front cs back _ hraw hfront hwritten hback =>
      have hread : integer? (trimBlanks (front ++ (cs ++ back))) = some value := by
        rw [trimBlanks_append hfront hwritten.isBlank hback, integer?_eq_some_iff.mpr hwritten]
      rw [positive?, hraw]
      dsimp only
      rw [if_neg (mt (unset_iff hraw).mpr hset), String.toList_ofList, hread]

/-- What a variable is decoded to: it is unset, holds an integer, which is positive or not,
or holds something else. -/
inductive Decoded (environment : Environment) (name : String) :
    Except SettingsFault (Option Nat) → Prop where
  | unset : Unset environment name → Decoded environment name (.ok none)
  | positive {n : Nat} : 0 < n → Holds environment name n → Decoded environment name (.ok (some n))
  | notPositive {value : Int} : value ≤ 0 → Holds environment name value →
      Decoded environment name (.error (.notPositive name value))
  | notInteger {raw : String} : ¬ Unset environment name →
      (∀ value, ¬ Holds environment name value) → environment.lookup name = some raw →
      Decoded environment name (.error (.notInteger name raw))

theorem positive?_of_not_holds {raw : String} (hset : ¬ Unset environment name)
    (hnone : ∀ value, ¬ Holds environment name value) (hraw : environment.lookup name = some raw) :
    positive? environment name = .error (.notInteger name raw) := by
  have hread : integer? (trimBlanks raw.toList) = none := by
    rw [Option.eq_none_iff_forall_ne_some]
    intro value hvalue
    obtain ⟨front, back, hsplit, hfront, hback⟩ := exists_append_trimBlanks raw.toList
    refine hnone value (.intro ?_ hfront (integer?_eq_some_iff.mp hvalue) hback)
    rw [← hsplit, String.ofList_toList, hraw]
  rw [positive?, hraw]
  dsimp only
  rw [if_neg (mt (unset_iff hraw).mpr hset), hread]

theorem decoded_positive? (environment : Environment) (name : String) :
    Decoded environment name (positive? environment name) := by
  by_cases hunset : Unset environment name
  · rw [positive?_of_unset hunset]
    exact .unset hunset
  · by_cases hholds : ∃ value, Holds environment name value
    · obtain ⟨value, hvalue⟩ := hholds
      rw [positive?_of_holds hvalue]
      split
      · next hpositive =>
          obtain ⟨n, rfl⟩ := Int.eq_ofNat_of_zero_le hpositive.le
          exact .positive (Int.natCast_pos.mp hpositive) hvalue
      · next hnot => exact .notPositive (Int.not_lt.mp hnot) hvalue
    · have hnone := not_exists.mp hholds
      cases hraw : environment.lookup name with
      | none => exact absurd (fun raw hmem => by rw [hraw] at hmem; cases hmem) hunset
      | some raw =>
          rw [positive?_of_not_holds hunset hnone hraw]
          exact .notInteger hunset hnone hraw

theorem positive?_eq_ok_none_iff :
    positive? environment name = .ok none ↔ Unset environment name := by
  refine ⟨fun h => ?_, positive?_of_unset⟩
  have hdecoded := decoded_positive? environment name
  rw [h] at hdecoded
  cases hdecoded with
  | unset hunset => exact hunset

theorem positive?_eq_ok_some_iff {n : Nat} :
    positive? environment name = .ok (some n) ↔ 0 < n ∧ Holds environment name n := by
  constructor
  · intro h
    have hdecoded := decoded_positive? environment name
    rw [h] at hdecoded
    cases hdecoded with
    | positive hpositive hholds => exact ⟨hpositive, hholds⟩
  · rintro ⟨hpositive, hholds⟩
    rw [positive?_of_holds hholds, if_pos (Int.natCast_pos.mpr hpositive), Int.toNat_natCast]

/-- Both messages start with the name of the variable. -/
theorem exists_message_eq {fault : SettingsFault}
    (h : positive? environment name = .error fault) : ∃ rest, fault.message = name ++ rest := by
  have hdecoded := decoded_positive? environment name
  rw [h] at hdecoded
  cases hdecoded with
  | notPositive | notInteger => exact ⟨_, String.append_assoc ..⟩

theorem exists_positive?_eq_error_iff :
    (∃ fault, positive? environment name = .error fault) ↔
      ¬ Unset environment name ∧ ∀ n : Nat, 0 < n → ¬ Holds environment name n := by
  rw [← positive?_eq_ok_none_iff]
  have hsome : (∀ n : Nat, 0 < n → ¬ Holds environment name n) ↔
      ∀ n, positive? environment name ≠ .ok (some n) :=
    forall_congr' fun n => by rw [Ne, positive?_eq_ok_some_iff, not_and]
  rw [hsome]
  rcases positive? environment name with fault | _ | n <;> simp

theorem map_limit_load (environment : Environment) :
    (load environment).map limit = positive? environment limitVariable := by
  rw [load]
  cases positive? environment limitVariable <;> rfl

theorem load_eq_error_iff {fault : SettingsFault} :
    load environment = .error fault ↔ positive? environment limitVariable = .error fault := by
  rw [← map_limit_load]
  cases load environment <;> simp [Except.map]

/-- The variable of the limit is decoded exactly.  There is no limit if the variable is
absent or blank, and a limit is the positive number that the variable holds, never zero.
In every other case the settings are refused, with a message that starts with the name of
the variable.  So every numeral of a positive number sets this number as the limit,
whatever blanks are around it and whichever scripts its digits are from. -/
theorem load_decodes_limit (environment : Environment) :
    ((load environment).map limit = .ok none ↔ Unset environment limitVariable) ∧
    (∀ n : Nat, (load environment).map limit = .ok (some n) ↔
      0 < n ∧ Holds environment limitVariable n) ∧
    ((∃ fault rest, load environment = .error fault ∧ fault.message = limitVariable ++ rest) ↔
      ¬ Unset environment limitVariable ∧
        ∀ n : Nat, 0 < n → ¬ Holds environment limitVariable n) ∧
    ∀ (n : Nat) (front sign cs back : List Char), 0 < n → (Nat.digits 10 n).length ≤ 4300 →
      AllBlank front → Sign sign false → Grouped cs (Nat.digits 10 n).reverse → AllBlank back →
      environment.lookup limitVariable = some (String.ofList (front ++ (sign ++ cs ++ back))) →
      (load environment).map limit = .ok (some n) := by
  rw [map_limit_load]
  refine ⟨positive?_eq_ok_none_iff, fun n => positive?_eq_ok_some_iff, ?_, ?_⟩
  · rw [← exists_positive?_eq_error_iff]
    constructor
    · rintro ⟨fault, rest, hfault, -⟩
      exact ⟨fault, load_eq_error_iff.mp hfault⟩
    · rintro ⟨fault, hfault⟩
      obtain ⟨rest, hrest⟩ := exists_message_eq hfault
      exact ⟨fault, rest, load_eq_error_iff.mpr hfault, hrest⟩
  · intro n front sign cs back hpositive hlength hfront hsign hgrouped hback hraw
    have hwritten := WrittenInteger.of_digits hsign hgrouped hlength
    exact positive?_eq_ok_some_iff.mpr ⟨hpositive, .intro hraw hfront hwritten hback⟩

/-- A numeral between blanks with digits of three scripts and an underscore, blanks only,
and two underscores in a row. -/
theorem load_decodes_limit_mixed :
    Grouped "\u0661_2\uff13".toList [1, 2, 3] ∧
    (load [("LISPFLAT_RECURSION_LIMIT", "\u2003+\u0661_2\uff13\t")]).map limit =
      .ok (some 123) ∧
    (load [("LISPFLAT_RECURSION_LIMIT", " \t")]).map limit = .ok none ∧
    ∃ fault rest, load [("LISPFLAT_RECURSION_LIMIT", "1__0")] = .error fault ∧
      fault.message = limitVariable ++ rest := by
  have hgrouped : Grouped "\u0661_2\uff13".toList [1, 2, 3] :=
    groupedDigits?_eq_some_iff.mp (by decide +kernel)
  have hdigits : Nat.digits 10 123 = [3, 2, 1] := by norm_num
  refine ⟨hgrouped, ?_, ?_, ?_⟩
  · obtain ⟨-, -, -, hnumerals⟩ :=
      load_decodes_limit [("LISPFLAT_RECURSION_LIMIT", "\u2003+\u0661_2\uff13\t")]
    refine hnumerals 123 ['\u2003'] ['+'] "\u0661_2\uff13".toList ['\t'] (by decide) ?_
      (by decide) .plus ?_ (by decide) (by decide +kernel)
    · rw [hdigits]
      decide
    · rw [hdigits]
      exact hgrouped
  · refine (load_decodes_limit [("LISPFLAT_RECURSION_LIMIT", " \t")]).1.mpr fun raw hraw => ?_
    obtain rfl : " \t" = raw := Option.some.inj hraw
    decide
  · refine (load_decodes_limit [("LISPFLAT_RECURSION_LIMIT", "1__0")]).2.2.1.mpr ⟨fun hunset => ?_,
      fun n _ hholds => ?_⟩
    · exact absurd (hunset "1__0" rfl '1' (by decide)) (by decide)
    · have hrefused : positive? [("LISPFLAT_RECURSION_LIMIT", "1__0")] limitVariable =
          .error (.notInteger limitVariable "1__0") := by
        rfl
      rw [positive?_of_holds hholds] at hrefused
      split at hrefused <;> cases hrefused

end Settings

end Lisplet
