import Lisplet.Decimal.Recognition
import Lisplet.Proofs.Decimal.Denotation
import Lisplet.Proofs.Reading.SyntaxTree
import Lisplet.Proofs.Text.Pattern
import Lisplet.Proofs.Text.Trimming

/-!
# Which tokens are numbers

The pattern of numbers describes the texts that the grammar of numerals does, and all of
these can be converted.  A token is read as a number exactly if it is one of them, and so
no token makes reading fail.
-/

namespace Lisplet

open Decimal Text Text.Pattern

/-! ## The pattern of numbers -/

namespace Decimal

theorem describes_sign_iff {cs : List Char} :
    signPattern.Describes cs ↔ ∃ negative, Sign cs negative := by
  simp only [signPattern, describes_optional_iff, describes_one_iff, isSign, Bool.or_eq_true,
    beq_iff_eq]
  constructor
  · rintro (rfl | ⟨c, rfl, rfl | rfl⟩)
    · exact ⟨false, .absent⟩
    · exact ⟨false, .plus⟩
    · exact ⟨true, .minus⟩
  · rintro ⟨negative, hsign⟩
    cases hsign with
    | absent => exact .inl rfl
    | plus => exact .inr ⟨'+', rfl, .inl rfl⟩
    | minus => exact .inr ⟨'-', rfl, .inr rfl⟩

theorem exists_digits_iff {cs : List Char} :
    (∃ ds, Digits cs ds) ↔ ∀ c ∈ cs, Text.isDigit c = true := by
  induction cs with
  | nil => exact ⟨fun _ => by simp, fun _ => ⟨[], .nil⟩⟩
  | cons c cs ih =>
      rw [List.forall_mem_cons, ← ih, Text.isDigit, Option.isSome_iff_exists]
      constructor
      · rintro ⟨ds, hds⟩
        obtain ⟨_, _, d, es, hcs, rfl, hc, hes⟩ := hds.exists_cons (by rintro rfl; cases hds)
        cases hcs
        exact ⟨⟨d, hc⟩, es, hes⟩
      · rintro ⟨⟨d, hc⟩, es, hes⟩
        exact ⟨d :: es, Digits.cons_iff.mpr ⟨hc, hes⟩⟩

theorem describes_digits_iff {cs : List Char} :
    digitsPattern.Describes cs ↔ ∃ ds, Digits cs ds ∧ ds ≠ [] := by
  simp only [digitsPattern, describes_both_iff, describes_one_iff, describes_many_iff,
    ← exists_digits_iff]
  constructor
  · rintro ⟨front, back, rfl, ⟨c, rfl, hc⟩, ds, hds⟩
    obtain ⟨d, hd⟩ := Option.isSome_iff_exists.mp hc
    exact ⟨d :: ds, Digits.cons_iff.mpr ⟨hd, hds⟩, List.cons_ne_nil d ds⟩
  · rintro ⟨ds, hds, hne⟩
    obtain ⟨c, later, d, es, rfl, rfl, hc, hes⟩ := hds.exists_cons hne
    exact ⟨[c], later, rfl, ⟨c, rfl, by rw [Text.isDigit, hc]; rfl⟩, es, hes⟩

theorem describes_mantissa_iff {cs : List Char} :
    mantissaPattern.Describes cs ↔ ∃ ds es, Mantissa cs ds es := by
  simp only [mantissaPattern, describes_either_iff, describes_both_iff, describes_optional_iff,
    describes_one_iff, describes_many_iff, describes_digits_iff, ← exists_digits_iff, beq_iff_eq]
  constructor
  · rintro (⟨whole, _, rfl, ⟨ds, hds, hne⟩, point, fraction, rfl, rfl | ⟨c, rfl, rfl⟩, es, hes⟩ |
      ⟨_, fraction, rfl, ⟨c, rfl, rfl⟩, es, hes, hne⟩)
    · -- without a point both runs of digits are one
      exact ⟨ds ++ es, [], .whole (hds.append hes) (List.append_ne_nil_of_left_ne_nil hne es)⟩
    · exact ⟨ds, es, .pointed hds hne hes⟩
    · exact ⟨[], es, .fraction hes hne⟩
  · rintro ⟨ds, es, hmantissa⟩
    cases hmantissa with
    | whole hds hne =>
        exact .inl ⟨cs, [], (List.append_nil cs).symm, ⟨ds, hds, hne⟩, [], [], rfl, .inl rfl, [],
          .nil⟩
    | @pointed whole fraction _ _ hds hne hes =>
        exact .inl ⟨whole, '.' :: fraction, rfl, ⟨ds, hds, hne⟩, ['.'], fraction, rfl,
          .inr ⟨'.', rfl, rfl⟩, es, hes⟩
    | @fraction fraction _ hes hne =>
        exact .inr ⟨['.'], fraction, rfl, ⟨'.', rfl, rfl⟩, es, hes, hne⟩

theorem describes_exponent_iff {cs : List Char} :
    (Pattern.optional exponentPattern).Describes cs ↔ ∃ exponent, Exponent cs exponent := by
  simp only [exponentPattern, describes_optional_iff, describes_both_iff, describes_one_iff,
    describes_sign_iff, describes_digits_iff, Bool.or_eq_true, beq_iff_eq]
  constructor
  · rintro (rfl | ⟨_, _, rfl, ⟨mark, rfl, hmark⟩, sign, digits, rfl, ⟨negative, hsign⟩, ds, hds,
      hne⟩)
    · exact ⟨0, .absent⟩
    · have hpresent := Exponent.present hmark hsign hds hne
      exact ⟨_, hpresent⟩
  · rintro ⟨exponent, hexponent⟩
    cases hexponent with
    | absent => exact .inl rfl
    | @present mark sign digits negative ds hmark hsign hds hne =>
        exact .inr ⟨[mark], sign ++ digits, rfl, ⟨mark, rfl, hmark⟩, sign, digits, rfl,
          ⟨negative, hsign⟩, ds, hds, hne⟩

/-- The pattern of numbers and the grammar of numerals describe the same texts. -/
theorem matchesWhole_numberPattern_iff {cs : List Char} :
    numberPattern.matchesWhole cs = true ↔ ∃ n, Numeral.Written cs n := by
  simp only [matchesWhole_iff, numberPattern, describes_both_iff, describes_sign_iff,
    describes_mantissa_iff, describes_exponent_iff]
  constructor
  · rintro ⟨sign, _, rfl, ⟨negative, hsign⟩, mantissa, tail, rfl, ⟨ds, es, hmantissa⟩, exponent,
      htail⟩
    exact ⟨_, .intro hsign hmantissa htail⟩
  · rintro ⟨n, hwritten⟩
    cases hwritten with
    | @intro sign mantissa tail negative whole fraction exponent hsign hmantissa htail =>
        exact ⟨sign, mantissa ++ tail, rfl, ⟨negative, hsign⟩, mantissa, tail, rfl,
          ⟨whole, fraction, hmantissa⟩, exponent, htail⟩

/-! ## Numerals are converted -/

theorem toNat_of_isDigit {c : Char} (hc : Text.isDigit c = true) :
    ∃ first ∈ Text.digitZeros, first ≤ c.toNat ∧ c.toNat < first + 10 := by
  obtain ⟨d, hd⟩ := Option.isSome_iff_exists.mp hc
  obtain ⟨first, hfind, -⟩ := Option.map_eq_some_iff.mp hd
  refine ⟨first, List.mem_of_find?_eq_some hfind, ?_⟩
  simpa using List.find?_some hfind

theorem isBlank_of_isDigit {c : Char} (hc : Text.isDigit c = true) : Text.isBlank c = false := by
  have hapart : ∀ first ∈ Text.digitZeros, ∀ run ∈ Text.blankRuns,
      run.2 < first ∨ first + 10 ≤ run.1 := by decide
  obtain ⟨first, hfirst, hlow, hhigh⟩ := toNat_of_isDigit hc
  rw [Text.isBlank, List.any_eq_false]
  intro run hrun
  have := hapart first hfirst run hrun
  simp only [Bool.and_eq_true, decide_eq_true_eq]
  omega

theorem toLower_of_isDigit {c : Char} (hc : Text.isDigit c = true) : c.toLower = c := by
  have hapart : ∀ first ∈ Text.digitZeros, 90 < first ∨ first + 10 ≤ 65 := by decide
  obtain ⟨first, hfirst, hlow, hhigh⟩ := toNat_of_isDigit hc
  have hrange := hapart first hfirst
  have hupper : ¬ (c.val ≥ 'A'.val ∧ c.val ≤ 'Z'.val) := by
    rintro ⟨hfrom, hto⟩
    have hfrom' : 65 ≤ c.toNat := UInt32.le_iff_toNat_le.mp hfrom
    have hto' : c.toNat ≤ 90 := UInt32.le_iff_toNat_le.mp hto
    omega
  exact dif_neg hupper

def IsNumeric (c : Char) : Prop :=
  Text.isDigit c = true ∨ c = '+' ∨ c = '-' ∨ c = '.' ∨ c = 'e' ∨ c = 'E'

theorem IsNumeric.isBlank {c : Char} (hc : IsNumeric c) : Text.isBlank c = false := by
  rcases hc with hc | rfl | rfl | rfl | rfl | rfl
  · exact isBlank_of_isDigit hc
  all_goals decide

theorem IsNumeric.ne_underscore {c : Char} (hc : IsNumeric c) : (c == '_') = false := by
  rw [beq_eq_false_iff_ne]
  rintro rfl
  rw [IsNumeric] at hc
  exact absurd hc (by decide)

theorem IsNumeric.toLower_ne {c : Char} (hc : IsNumeric c) : c.toLower ≠ 'n' := by
  rcases hc with hc | rfl | rfl | rfl | rfl | rfl
  · rw [toLower_of_isDigit hc]
    rintro rfl
    exact absurd hc (by decide)
  all_goals decide

theorem Digits.isNumeric {cs : List Char} {ds : List Nat} (h : Digits cs ds) :
    ∀ c ∈ cs, IsNumeric c :=
  fun c hc => .inl (exists_digits_iff.mp ⟨ds, h⟩ c hc)

theorem Sign.isNumeric {cs : List Char} {negative : Bool} (h : Sign cs negative) :
    ∀ c ∈ cs, IsNumeric c := by
  cases h <;> simp [IsNumeric]

theorem Mantissa.isNumeric {cs : List Char} {ds es : List Nat} (h : Mantissa cs ds es) :
    ∀ c ∈ cs, IsNumeric c := by
  have hpoint : IsNumeric '.' := by simp [IsNumeric]
  cases h with
  | whole hdigits _ => exact hdigits.isNumeric
  | pointed hdigits _ hfraction =>
      exact List.forall_mem_append.mpr
        ⟨hdigits.isNumeric, List.forall_mem_cons.mpr ⟨hpoint, hfraction.isNumeric⟩⟩
  | fraction hfraction _ => exact List.forall_mem_cons.mpr ⟨hpoint, hfraction.isNumeric⟩

theorem Exponent.isNumeric {cs : List Char} {exponent : Int} (h : Exponent cs exponent) :
    ∀ c ∈ cs, IsNumeric c := by
  cases h with
  | absent => simp
  | present hmark hsign hdigits _ =>
      have hmark' : IsNumeric _ := .inr (.inr (.inr (.inr hmark)))
      exact List.forall_mem_cons.mpr
        ⟨hmark', List.forall_mem_append.mpr ⟨hsign.isNumeric, hdigits.isNumeric⟩⟩

theorem isNumeric_of_written {cs : List Char} {n : Numeral} (h : Numeral.Written cs n) :
    ∀ c ∈ cs, IsNumeric c := by
  cases h with
  | intro hsign hmantissa htail =>
      exact List.forall_mem_append.mpr
        ⟨hsign.isNumeric, List.forall_mem_append.mpr ⟨hmantissa.isNumeric, htail.isNumeric⟩⟩

theorem trimBlanks_eq {cs : List Char} (hcs : ∀ c ∈ cs, Text.isBlank c = false) :
    Text.trimBlanks cs = cs := by
  have hbetween : Text.trimBlanks ([] ++ (cs ++ [])) = cs :=
    Text.trimBlanks_append nofun hcs nofun
  rwa [List.nil_append, List.append_nil] at hbetween

theorem withoutUnderscores?_eq {cs : List Char} (hcs : ∀ c ∈ cs, (c == '_') = false)
    (afterDigit : Bool) : withoutUnderscores? afterDigit cs = some cs := by
  induction cs generalizing afterDigit with
  | nil => rfl
  | cons c cs ih =>
      obtain ⟨hc, hcs⟩ := List.forall_mem_cons.mp hcs
      rw [withoutUnderscores?, hc, if_neg Bool.false_ne_true, ih hcs]
      rfl

/-- Whatever is written by the grammar of numerals can be converted. -/
theorem real?_of_written {cs : List Char} {n : Numeral} (h : Numeral.Written cs n) :
    real? cs = some (.real n.toDouble) := by
  have hnumeric := isNumeric_of_written h
  obtain ⟨sign, negative, unsigned, htake, hsplit, -⟩ := exists_takeSign cs
  have hname {name : List Char} (hn : 'n' ∈ name) : unsigned.map Char.toLower ≠ name := by
    rintro rfl
    obtain ⟨c, hc, hlower⟩ := List.mem_map.mp hn
    refine (hnumeric c ?_).toLower_ne hlower
    rw [hsplit]
    exact List.mem_append_right sign hc
  rw [real?, trimBlanks_eq fun c hc => (hnumeric c hc).isBlank,
    withoutUnderscores?_eq fun c hc => (hnumeric c hc).ne_underscore]
  simp only [Option.bind_eq_bind, Option.bind_some, htake]
  rw [if_neg (not_or.mpr ⟨hname (by decide), hname (by decide)⟩), if_neg (hname (by decide)),
    Numeral.ofChars?_eq_some_iff.mpr h]
  rfl

end Decimal

/-! ## Tokens -/

namespace Datum

open Double

/-- A token is a number exactly if it is written by the grammar of numerals, which is
what the pattern of numbers matches.  It can then be converted, to the double nearest to
what the numeral denotes.  Every other token is a boolean, the empty list if there is
nothing in it, or the symbol of that name.  Reading a text fails only for its
parentheses, or because they are nested too deeply. -/
theorem numbers_are_numerals :
    (∀ token : String,
      ((∃ x, ofToken token = .number x) ↔ ∃ n, Numeral.Written token.toList n) ∧
      (numberPattern.matchesWhole token.toList = true ↔ ∃ n, Numeral.Written token.toList n) ∧
      (∀ n, Numeral.Written token.toList n → ∃ x : Double,
        real? token.toList = some (.real x) ∧ ofToken token = .number (.real x) ∧
        x.negative = n.negative ∧ IsNearest n.value x) ∧
      ((¬ ∃ n, Numeral.Written token.toList n) →
        token = "#t" ∧ ofToken token = .boolean true ∨
        token = "#f" ∧ ofToken token = .boolean false ∨
        token = "" ∧ ofToken token = .list [] ∨
        token ∉ ["#t", "#f", ""] ∧ ofToken token = .symbol token)) ∧
    ∀ (limit : Nat) (source : Option String) (failure : Failure),
      (readSource limit source).failure = some failure →
      failure.kind = .wrongText ∨ failure.kind = .tooDeep := by
  refine ⟨fun token => ?_, fun limit source failure hfailure => ?_⟩
  · have hnumber {n : Numeral} (hwritten : Numeral.Written token.toList n) :
        ofToken token = .number (.real n.toDouble) := by
      rw [ofToken, Numeral.ofChars?_eq_some_iff.mpr hwritten]
    have hother (hnone : ¬ ∃ n, Numeral.Written token.toList n) :
        token = "#t" ∧ ofToken token = .boolean true ∨
        token = "#f" ∧ ofToken token = .boolean false ∨
        token = "" ∧ ofToken token = .list [] ∨
        token ∉ ["#t", "#f", ""] ∧ ofToken token = .symbol token := by
      have hread : Numeral.ofChars? token.toList = none := by
        rw [Option.eq_none_iff_forall_ne_some]
        intro n hn
        exact hnone ⟨n, Numeral.ofChars?_eq_some_iff.mp hn⟩
      rw [ofToken, hread]
      dsimp only
      split
      · next htrue => exact .inl ⟨htrue, rfl⟩
      · split
        · next hfalse => exact .inr (.inl ⟨hfalse, rfl⟩)
        · split
          · next hempty => exact .inr (.inr (.inl ⟨hempty, rfl⟩))
          · next htrue hfalse hempty =>
              exact .inr (.inr (.inr ⟨by simp [htrue, hfalse, hempty], rfl⟩))
    refine ⟨⟨?_, ?_⟩, matchesWhole_numberPattern_iff, ?_, hother⟩
    · rintro ⟨x, hx⟩
      by_contra hnone
      rcases hother hnone with ⟨-, h⟩ | ⟨-, h⟩ | ⟨-, h⟩ | ⟨-, h⟩ <;> rw [h] at hx <;> cases hx
    · rintro ⟨n, hwritten⟩
      exact ⟨_, hnumber hwritten⟩
    · intro n hwritten
      obtain ⟨hnearest, hnegative⟩ := hwritten.isNearest_toDouble
      exact ⟨n.toDouble, real?_of_written hwritten, hnumber hwritten, hnegative, hnearest⟩
  · rcases readSource_failure_cases hfailure with rfl | rfl | rfl | rfl
    · exact .inl rfl
    · exact .inl rfl
    · exact .inl rfl
    · exact .inr rfl

/-- Digits of two scripts, a name with an underscore among digits, and an open list. -/
theorem numbers_are_numerals_mixed :
    (∃ (n : Numeral) (x : Double), Numeral.Written "-1\u0662.5E1".toList n ∧ n.value = -125 ∧
      ofToken "-1\u0662.5E1" = .number (.real x) ∧ x.negative = true ∧ IsNearest (-125) x) ∧
    (¬ ∃ n, Numeral.Written "1_0".toList n) ∧ ofToken "1_0" = .symbol "1_0" ∧
    (readSource 1000 (some "(1 2")).failure = some .unexpectedEnd ∧
    (Failure.unexpectedEnd.kind = .wrongText ∨ Failure.unexpectedEnd.kind = .tooDeep) := by
  have hwritten : Numeral.Written "-1\u0662.5E1".toList ⟨true, [1, 2], [5], 1⟩ :=
    Numeral.ofChars?_eq_some_iff.mp (by decide +kernel)
  have hvalue : Numeral.value ⟨true, [1, 2], [5], 1⟩ = -125 := by
    norm_num [Numeral.value, Numeral.size, ofDigits]
  have hname : ¬ ∃ n, Numeral.Written "1_0".toList n := by
    rintro ⟨n, hn⟩
    have hnone : Numeral.ofChars? "1_0".toList = none := by decide +kernel
    rw [Numeral.ofChars?_eq_some_iff.mpr hn] at hnone
    cases hnone
  have hopen : (readSource 1000 (some "(1 2")).failure = some .unexpectedEnd := by
    rw [readSource, show Token.split "(1 2".toList = ["(", "1", "2"] by decide,
      SyntaxTree.readForms_of_error (by decide) rfl]
  obtain ⟨-, -, hnumber, -⟩ := numbers_are_numerals.1 "-1\u0662.5E1"
  obtain ⟨x, -, hread, hnegative, hnearest⟩ := hnumber _ hwritten
  obtain ⟨-, -, -, hother⟩ := numbers_are_numerals.1 "1_0"
  refine ⟨⟨_, x, hwritten, hvalue, hread, hnegative, hvalue ▸ hnearest⟩, hname, ?_, hopen,
    numbers_are_numerals.2 1000 (some "(1 2") _ hopen⟩
  rcases hother hname with ⟨h, -⟩ | ⟨h, -⟩ | ⟨h, -⟩ | ⟨-, h⟩
  · exact absurd h (by decide)
  · exact absurd h (by decide)
  · exact absurd h (by decide)
  · exact h

end Datum

end Lisplet
