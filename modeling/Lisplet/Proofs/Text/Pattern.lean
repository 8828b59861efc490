import Lisplet.Text.Pattern

/-!
# What a pattern matches

A pattern describes certain texts.  What a search for it can leave is exactly what the
description allows: the order of the attempts only decides which of several ways comes
first.
-/

namespace Lisplet.Text

namespace Pattern

/-- The texts that a pattern describes. -/
inductive Describes : Pattern → List Char → Prop where
  | one {test : Char → Bool} {c : Char} : test c = true → Describes (.one test) [c]
  | many {test : Char → Bool} {cs : List Char} : (∀ c ∈ cs, test c = true) →
      Describes (.many test) cs
  | absent {part : Pattern} : Describes (.optional part) []
  | present {part : Pattern} {cs : List Char} : Describes part cs → Describes (.optional part) cs
  | both {first second : Pattern} {cs ds : List Char} : Describes first cs →
      Describes second ds → Describes (.both first second) (cs ++ ds)
  | first {first second : Pattern} {cs : List Char} : Describes first cs →
      Describes (.either first second) cs
  | second {first second : Pattern} {cs : List Char} : Describes second cs →
      Describes (.either first second) cs

section Describes

variable {test : Char → Bool} {p q : Pattern} {cs : List Char}

@[simp]
theorem describes_one_iff : (one test).Describes cs ↔ ∃ c, cs = [c] ∧ test c = true := by
  constructor
  · intro h
    cases h with
    | one hc => exact ⟨_, rfl, hc⟩
  · rintro ⟨c, rfl, hc⟩
    exact .one hc

@[simp]
theorem describes_many_iff : (many test).Describes cs ↔ ∀ c ∈ cs, test c = true := by
  constructor
  · intro h
    cases h with
    | many hall => exact hall
  · exact .many

@[simp]
theorem describes_optional_iff : (optional p).Describes cs ↔ cs = [] ∨ p.Describes cs := by
  constructor
  · intro h
    cases h with
    | absent => exact .inl rfl
    | present h => exact .inr h
  · rintro (rfl | h)
    · exact .absent
    · exact .present h

@[simp]
theorem describes_both_iff : (both p q).Describes cs ↔
    ∃ front back, cs = front ++ back ∧ p.Describes front ∧ q.Describes back := by
  constructor
  · intro h
    cases h with
    | both hfront hback => exact ⟨_, _, rfl, hfront, hback⟩
  · rintro ⟨front, back, rfl, hfront, hback⟩
    exact .both hfront hback

@[simp]
theorem describes_either_iff : (either p q).Describes cs ↔ p.Describes cs ∨ q.Describes cs := by
  constructor
  · intro h
    cases h with
    | first h => exact .inl h
    | second h => exact .inr h
  · rintro (h | h)
    · exact .first h
    · exact .second h

end Describes

/-! ## What a search can leave -/

theorem mem_restsOfMany_iff {test : Char → Bool} {cs rest : List Char} :
    rest ∈ restsOfMany test cs ↔ ∃ front, cs = front ++ rest ∧ ∀ c ∈ front, test c = true := by
  induction cs with
  | nil =>
      rw [restsOfMany, List.mem_singleton]
      constructor
      · rintro rfl
        exact ⟨[], rfl, by simp⟩
      · rintro ⟨front, hnil, -⟩
        exact (List.append_eq_nil_iff.mp hnil.symm).2
  | cons c cs ih =>
      rw [restsOfMany]
      constructor
      · intro hrest
        split at hrest
        · next hc =>
            rcases List.mem_append.mp hrest with hrest | hrest
            · obtain ⟨front, rfl, hfront⟩ := ih.mp hrest
              exact ⟨c :: front, rfl, List.forall_mem_cons.mpr ⟨hc, hfront⟩⟩
            · exact ⟨[], (List.mem_singleton.mp hrest).symm, by simp⟩
        · exact ⟨[], (List.mem_singleton.mp hrest).symm, by simp⟩
      · rintro ⟨front, hcs, hfront⟩
        cases front with
        | nil =>
            obtain rfl : c :: cs = rest := hcs
            split <;> simp
        | cons d front =>
            obtain ⟨rfl, rfl⟩ := List.cons_eq_cons.mp hcs
            obtain ⟨hc, hfront⟩ := List.forall_mem_cons.mp hfront
            rw [if_pos hc]
            exact List.mem_append_left _ (ih.mpr ⟨front, rfl, hfront⟩)

/-- A search leaves what stands behind a text that the pattern describes, and it finds
all of these. -/
theorem mem_rests_iff {p : Pattern} {cs rest : List Char} :
    rest ∈ p.rests cs ↔ ∃ front, cs = front ++ rest ∧ p.Describes front := by
  induction p generalizing cs rest with
  | one test =>
      constructor
      · intro hrest
        cases cs with
        | nil => cases hrest
        | cons c cs =>
            rw [rests] at hrest
            split at hrest
            · next hc =>
                obtain rfl := List.mem_singleton.mp hrest
                exact ⟨[c], rfl, .one hc⟩
            · cases hrest
      · rintro ⟨front, rfl, hfront⟩
        obtain ⟨c, rfl, hc⟩ := describes_one_iff.mp hfront
        simp [rests, hc]
  | many test =>
      rw [rests, mem_restsOfMany_iff]
      simp only [describes_many_iff]
  | optional part ih =>
      rw [rests, List.mem_append, List.mem_singleton, ih]
      constructor
      · rintro (⟨front, hcs, hfront⟩ | rfl)
        · exact ⟨front, hcs, .present hfront⟩
        · exact ⟨[], rfl, .absent⟩
      · rintro ⟨front, rfl, hfront⟩
        rcases describes_optional_iff.mp hfront with rfl | hfront
        · exact .inr rfl
        · exact .inl ⟨front, rfl, hfront⟩
  | both first second ihFirst ihSecond =>
      rw [rests, List.mem_flatMap]
      constructor
      · rintro ⟨middle, hmiddle, hrest⟩
        obtain ⟨front, rfl, hfront⟩ := ihFirst.mp hmiddle
        obtain ⟨next, rfl, hnext⟩ := ihSecond.mp hrest
        exact ⟨front ++ next, (List.append_assoc ..).symm, .both hfront hnext⟩
      · rintro ⟨front, rfl, hfront⟩
        obtain ⟨cs, ds, rfl, hfirst, hsecond⟩ := describes_both_iff.mp hfront
        exact ⟨ds ++ rest, ihFirst.mpr ⟨cs, List.append_assoc .., hfirst⟩,
          ihSecond.mpr ⟨ds, rfl, hsecond⟩⟩
  | either first second ihFirst ihSecond =>
      rw [rests, List.mem_append, ihFirst, ihSecond, ← exists_or]
      simp only [describes_either_iff, and_or_left]

theorem matchesWhole_iff {p : Pattern} {cs : List Char} :
    p.matchesWhole cs = true ↔ p.Describes cs := by
  rw [matchesWhole, List.any_eq_true]
  constructor
  · rintro ⟨rest, hrest, hempty⟩
    obtain rfl := List.isEmpty_iff.mp hempty
    obtain ⟨front, rfl, hfront⟩ := mem_rests_iff.mp hrest
    rwa [List.append_nil]
  · intro hcs
    exact ⟨[], mem_rests_iff.mpr ⟨cs, (List.append_nil cs).symm, hcs⟩, rfl⟩

/-! ## All matches in a text -/

@[simp]
theorem findAll_nil (p : Pattern) (offset : Nat) : p.findAll offset [] = [] := by
  rw [findAll]

theorem findAll_of_none {p : Pattern} {c : Char} {cs : List Char}
    (h : p.firstRest? (c :: cs) = none) (offset : Nat) :
    p.findAll offset (c :: cs) = p.findAll (offset + 1) cs := by
  rw [findAll, h]

theorem findAll_append {p : Pattern} {front rest : List Char} (hne : front ≠ [])
    (h : p.firstRest? (front ++ rest) = some rest) (offset : Nat) :
    p.findAll offset (front ++ rest) =
      (offset, front) :: p.findAll (offset + front.length) rest := by
  obtain ⟨c, front, rfl⟩ := List.exists_cons_of_ne_nil hne
  rw [List.cons_append] at h
  have hlength : (front ++ rest).length + 1 - rest.length = (c :: front).length := by
    rw [List.length_append, List.length_cons]
    omega
  rw [List.cons_append, findAll, h]
  dsimp only
  rw [if_pos (by simp), hlength, ← List.cons_append, List.take_left]

/-- The first repetition that is tried is the longest one. -/
theorem head?_restsOfMany (test : Char → Bool) (cs : List Char) :
    (restsOfMany test cs).head? = some (cs.dropWhile test) := by
  induction cs with
  | nil => rfl
  | cons c cs ih =>
      rw [restsOfMany, List.dropWhile_cons]
      split
      · rw [List.head?_append, ih]
        rfl
      · rfl

end Pattern

end Lisplet.Text
