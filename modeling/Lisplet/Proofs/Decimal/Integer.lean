import Mathlib.Data.Nat.Digits.Defs
import Lisplet.Decimal.Numeral
import Lisplet.Proofs.Decimal.Recognition

/-!
# The grammar of integers

An integer is written as an optional sign and digits of any script, two of which may
have an underscore between them.  The reader accepts what the grammar describes, up to a
number of digits, and nothing else.  None of the characters is a blank, so that blanks
around an integer can be told from it.
-/

namespace Lisplet

namespace Decimal

/-- Digits of any script, with their values; between two digits there may be an
underscore. -/
inductive Grouped : List Char → List Nat → Prop where
  | last {c : Char} {d : Nat} : Text.digitValue? c = some d → Grouped [c] [d]
  | next {c : Char} {d : Nat} {cs : List Char} {ds : List Nat} : Text.digitValue? c = some d →
      Grouped cs ds → Grouped (c :: cs) (d :: ds)
  | apart {c : Char} {d : Nat} {cs : List Char} {ds : List Nat} : Text.digitValue? c = some d →
      Grouped cs ds → Grouped (c :: '_' :: cs) (d :: ds)

/-- A text is written by the grammar of integers and denotes this one. -/
inductive WrittenInteger : List Char → Int → Prop where
  | intro {sign cs : List Char} {negative : Bool} {ds : List Nat} : Sign sign negative →
      Grouped cs ds → ds.length ≤ 4300 →
      WrittenInteger (sign ++ cs)
        (if negative then -((Nat.ofDigits 10 ds.reverse : Nat) : Int)
        else (Nat.ofDigits 10 ds.reverse : Nat))

/-- The value of digits is what their reverse denotes in the base ten. -/
theorem ofDigits_eq (ds : List Nat) : ofDigits ds = Nat.ofDigits 10 ds.reverse := by
  induction ds using List.reverseRecOn with
  | nil => rfl
  | append_singleton ds d ih =>
      rw [List.reverse_concat, Nat.ofDigits_cons, ← ih, ofDigits, List.foldl_concat, ofDigits]
      exact (Nat.add_comm ..).trans (congrArg (d + ·) (Nat.mul_comm ..))

namespace Grouped

theorem exists_cons {cs : List Char} {ds : List Nat} (h : Grouped cs ds) :
    ∃ c later d, cs = c :: later ∧ Text.digitValue? c = some d := by
  cases h with
  | last hc | next hc _ | apart hc _ => exact ⟨_, _, _, rfl, hc⟩

theorem unsigned {cs : List Char} {ds : List Nat} (h : Grouped cs ds) : Unsigned cs := by
  obtain ⟨c, later, d, rfl, hc⟩ := h.exists_cons
  exact unsigned_of_digit hc

theorem isBlank {cs : List Char} {ds : List Nat} (h : Grouped cs ds) :
    ∀ c ∈ cs, Text.isBlank c = false := by
  have hdigit {c : Char} {d : Nat} (hc : Text.digitValue? c = some d) : Text.isBlank c = false :=
    isBlank_of_isDigit (Option.isSome_of_eq_some hc)
  induction h with
  | last hc => simpa using hdigit hc
  | next hc _ ih => exact List.forall_mem_cons.mpr ⟨hdigit hc, ih⟩
  | apart hc _ ih =>
      exact List.forall_mem_cons.mpr ⟨hdigit hc, List.forall_mem_cons.mpr ⟨by decide, ih⟩⟩

end Grouped

@[simp]
theorem digitValue?_underscore : Text.digitValue? '_' = none := by decide

theorem groupedDigits?_go_digit (afterDigit : Bool) {c : Char} {d : Nat} (cs : List Char)
    (hc : Text.digitValue? c = some d) :
    groupedDigits?.go afterDigit (c :: cs) = (groupedDigits?.go true cs).map (d :: ·) := by
  rw [groupedDigits?.go, hc]

theorem Grouped.groupedDigits?_go {cs : List Char} {ds : List Nat} (h : Grouped cs ds)
    (afterDigit : Bool) : groupedDigits?.go afterDigit cs = some ds := by
  induction h generalizing afterDigit with
  | last hc => rw [groupedDigits?_go_digit _ _ hc]; rfl
  | next hc _ ih => rw [groupedDigits?_go_digit _ _ hc, ih]; rfl
  | apart hc _ ih =>
      rw [groupedDigits?_go_digit _ _ hc, groupedDigits?.go, digitValue?_underscore]
      dsimp only
      rw [ih]
      rfl

/-- Only behind a digit may a text end, or go on with an underscore. -/
theorem grouped_of_groupedDigits?_go {afterDigit : Bool} {cs : List Char} {ds : List Nat}
    (h : groupedDigits?.go afterDigit cs = some ds) :
    Grouped cs ds ∨ afterDigit = true ∧
      (cs = [] ∧ ds = [] ∨ ∃ later, cs = '_' :: later ∧ Grouped later ds) := by
  induction cs generalizing afterDigit ds with
  | nil =>
      rw [groupedDigits?.go] at h
      split at h
      · next hafter =>
          cases h
          exact .inr ⟨hafter, .inl ⟨rfl, rfl⟩⟩
      · cases h
  | cons c cs ih =>
      cases hc : Text.digitValue? c with
      | some d =>
          rw [groupedDigits?_go_digit _ _ hc] at h
          obtain ⟨es, hes, rfl⟩ := Option.map_eq_some_iff.mp h
          rcases ih hes with hnext | ⟨-, ⟨rfl, rfl⟩ | ⟨later, rfl, hlater⟩⟩
          · exact .inl (.next hc hnext)
          · exact .inl (.last hc)
          · exact .inl (.apart hc hlater)
      | none =>
          rw [groupedDigits?.go, hc] at h
          dsimp only at h
          split at h
          · next hmark =>
              obtain ⟨hunderscore, hafter⟩ := Bool.and_eq_true_iff.mp hmark
              obtain rfl := beq_iff_eq.mp hunderscore
              have hlater := (ih h).resolve_right fun hfalse => Bool.false_ne_true hfalse.1
              exact .inr ⟨hafter, .inr ⟨cs, rfl, hlater⟩⟩
          · cases h

theorem groupedDigits?_eq_some_iff {cs : List Char} {ds : List Nat} :
    groupedDigits? cs = some ds ↔ Grouped cs ds :=
  ⟨fun h => (grouped_of_groupedDigits?_go h).resolve_right fun hfalse =>
    Bool.false_ne_true hfalse.1, fun h => h.groupedDigits?_go false⟩

/-- The texts that are read as integers are those that the grammar describes, and what is
read is what they denote. -/
theorem integer?_eq_some_iff {cs : List Char} {value : Int} :
    integer? cs = some value ↔ WrittenInteger cs value := by
  constructor
  · intro h
    obtain ⟨sign, negative, rest, hsign, rfl, hnegative⟩ := exists_takeSign cs
    rw [integer?, hsign] at h
    obtain ⟨ds, hds, hvalue⟩ := Option.bind_eq_some_iff.mp h
    split at hvalue
    · next hlength =>
        cases hvalue
        rw [ofDigits_eq]
        exact .intro hnegative (groupedDigits?_eq_some_iff.mp hds) hlength
    · cases hvalue
  · intro h
    cases h with
    | intro hsign hgrouped hlength =>
        rw [integer?, hsign.takeSign_append hgrouped.unsigned]
        dsimp only
        rw [groupedDigits?_eq_some_iff.mpr hgrouped, Option.bind_eq_bind, Option.bind_some,
          maxDigits, if_pos hlength, ofDigits_eq]
        rfl

namespace WrittenInteger

theorem ne_nil {cs : List Char} {value : Int} (h : WrittenInteger cs value) : cs ≠ [] := by
  cases h with
  | intro _ hgrouped _ =>
      obtain ⟨c, later, -, rfl, -⟩ := hgrouped.exists_cons
      exact List.append_ne_nil_of_right_ne_nil _ (List.cons_ne_nil c later)

theorem isBlank {cs : List Char} {value : Int} (h : WrittenInteger cs value) :
    ∀ c ∈ cs, Text.isBlank c = false := by
  cases h with
  | intro hsign hgrouped _ =>
      exact List.forall_mem_append.mpr
        ⟨fun c hc => (hsign.isNumeric c hc).isBlank, hgrouped.isBlank⟩

/-- Grouped digits of a number in the base ten, with a plus sign or without, denote this
number. -/
theorem of_digits {sign cs : List Char} {n : Nat} (hsign : Sign sign false)
    (hgrouped : Grouped cs (Nat.digits 10 n).reverse) (hlength : (Nat.digits 10 n).length ≤ 4300) :
    WrittenInteger (sign ++ cs) n := by
  have h := WrittenInteger.intro hsign hgrouped (List.length_reverse.trans_le hlength)
  rw [if_neg Bool.false_ne_true, List.reverse_reverse, Nat.ofDigits_digits] at h
  exact h

end WrittenInteger

end Decimal

end Lisplet
