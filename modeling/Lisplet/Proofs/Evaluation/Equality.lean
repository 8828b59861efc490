import Mathlib.Data.List.Forall2
import Mathlib.Logic.Relation
import Lisplet.Evaluation

/-!
# The two equalities

Whether two values are the same is whether one value represents both: a representative
keeps all that structural equality looks at and nothing else.  The same goes for
identity, with representatives that keep the identity of a list.  Both relations are
equivalences for that reason, and what only depends on the representative, such as the
text of a value and the variants at every depth in it, is shared by values that are the
same.
-/

namespace Lisplet

namespace Double

/-- The double that stands for all that are the same: zero has no sign. -/
def representative (x : Double) : Double := if x.isZero then zero false else x

theorem same_iff (x y : Double) : x.same y = true ↔ x.representative = y.representative := by
  obtain ⟨negative, place, hplace⟩ := x
  obtain ⟨other, rank, hrank⟩ := y
  simp only [representative, zero, ofPlace, isZero, same, Double.rank, beq_iff_eq]
  by_cases hzero : place = 0 <;> by_cases hother : rank = 0 <;> cases negative <;>
    cases other <;> simp [hzero, hother] <;> omega

@[simp]
theorem spelling_representative (x : Double) : x.representative.spelling = x.spelling := by
  rw [representative]
  split
  · next hzero =>
      rw [spelling, spelling, if_pos hzero]
      rfl
  · rfl

end Double

namespace Number

def representative : Number → Number
  | real x => real x.representative
  | nan mark => nan mark

theorem same_iff (x y : Number) : x.same y = true ↔ x.representative = y.representative := by
  cases x <;> cases y <;> simp [same, representative, Double.same_iff]

@[simp]
theorem spelling_representative (x : Number) : x.representative.spelling = x.spelling := by
  cases x with
  | real x => exact x.spelling_representative
  | nan mark => rfl

end Number

namespace Value

/-! ## Representatives -/

mutual

/-- The value that stands for all that are structurally the same: lists lose their
identity, and a closure keeps nothing else. -/
def representative : Value → Value
  | number x => number x.representative
  | list _ items => list 0 (representativeAll items)
  | closure identity .. => closure identity [] (list 0 []) 0
  | v => v

def representativeAll : List Value → List Value
  | [] => []
  | item :: items => item.representative :: representativeAll items

end

mutual

theorem same_iff : (a b : Value) → a.same b = true ↔ a.representative = b.representative
  | number x, b => by
    cases b with
    | number y => rw [same, Number.same_iff, representative, representative, number.injEq]
    | _ => simp [same, representative]
  | boolean c, b => by cases b <;> simp [same, representative]
  | symbol name, b => by cases b <;> simp [same, representative]
  | primitive i p, b => by cases b <;> simp [same, representative]
  | closure .., b => by cases b <;> simp [same, representative]
  | list i xs, b => by
    cases b with
    | list j ys => rw [same, sameAll_iff xs ys, representative, representative]; simp
    | _ => simp [same, representative]

theorem sameAll_iff : (xs ys : List Value) →
    sameAll xs ys = true ↔ representativeAll xs = representativeAll ys
  | [], ys => by cases ys <;> simp [sameAll, representativeAll]
  | x :: xs, [] => by simp [sameAll, representativeAll]
  | x :: xs, y :: ys => by
    rw [sameAll, Bool.and_eq_true, same_iff x y, sameAll_iff xs ys, representativeAll,
      representativeAll, List.cons.injEq]

end

/-- The value that stands for all that are identical: a list keeps its identity, unless
it has no elements. -/
def reference : Value → Value
  | list _ [] => list 0 []
  | list identity (item :: items) => list identity (representativeAll (item :: items))
  | v => v.representative

theorem identical_iff (a b : Value) : a.identical b = true ↔ a.reference = b.reference := by
  cases a with
  | list i xs =>
      cases b with
      | list j ys =>
          rw [identical, sameItems_eq, Bool.or_eq_true, Bool.and_eq_true, Bool.and_eq_true,
            sameAll_iff, beq_iff_eq]
          cases xs <;> cases ys <;> simp [reference, representativeAll]
      | _ => cases xs <;> simp [identical, same, reference, representative]
  | _ =>
      cases b with
      | list j ys => cases ys <;> simp [identical, same, reference, representative]
      | _ => rw [identical, same_iff] <;> simp [reference]

theorem equivalence_same : Equivalence fun a b : Value => a.same b = true := by
  simp only [same_iff]
  exact eq_equivalence.comap representative

theorem equivalence_identical : Equivalence fun a b : Value => a.identical b = true := by
  simp only [identical_iff]
  exact eq_equivalence.comap reference

theorem same_of_identical {a b : Value} (h : a.identical b = true) : a.same b = true := by
  cases a with
  | list i xs =>
      cases b with
      | list j ys =>
          rw [identical, Bool.or_eq_true, Bool.and_eq_true, Bool.and_eq_true] at h
          rcases h with ⟨hxs, hys⟩ | ⟨-, hitems⟩
          · rw [List.isEmpty_iff.mp hxs, List.isEmpty_iff.mp hys]
            rfl
          · exact hitems
      | _ => exact h
  | _ => exact h

/-! ## Elements and variants -/

theorem sameAll_iff_forall₂ (xs ys : List Value) :
    sameAll xs ys = true ↔ List.Forall₂ (fun x y : Value => x.same y = true) xs ys := by
  induction xs generalizing ys with
  | nil => cases ys <;> simp [sameAll]
  | cons x xs ih =>
      cases ys with
      | nil => simp [sameAll]
      | cons y ys => rw [sameAll, Bool.and_eq_true, List.forall₂_cons, ih]

inductive Variant where
  | number | boolean | symbol | list | primitive | closure
deriving DecidableEq

def variant : Value → Variant
  | number _ => .number
  | boolean _ => .boolean
  | symbol _ => .symbol
  | list .. => .list
  | primitive .. => .primitive
  | closure .. => .closure

/-- What is found in a value by going to the element at each of these positions in
turn. -/
def at? (v : Value) : List Nat → Option Value
  | [] => some v
  | n :: path =>
    match v with
    | list _ items => items[n]?.bind (·.at? path)
    | _ => none

@[simp]
theorem variant_representative (v : Value) : v.representative.variant = v.variant := by
  cases v <;> rfl

@[simp]
theorem representativeAll_eq_map (items : List Value) :
    representativeAll items = items.map representative := by
  induction items with
  | nil => rfl
  | cons item items ih => rw [representativeAll, ih, List.map_cons]

/-- Representatives are taken at every depth. -/
@[simp]
theorem at?_representative (v : Value) (path : List Nat) :
    v.representative.at? path = (v.at? path).map representative := by
  induction path generalizing v with
  | nil => rfl
  | cons n path ih =>
      cases v with
      | list i items =>
          rw [representative, at?, at?, representativeAll_eq_map, List.getElem?_map]
          cases items[n]? with
          | none => rfl
          | some item => exact ih item
      | _ => rfl

/-- Values that are the same have the same variants at every depth. -/
theorem variant_at?_of_same {a b : Value} (h : a.same b = true) (path : List Nat) :
    (a.at? path).map variant = (b.at? path).map variant := by
  have hvariant (v : Value) :
      (v.at? path).map variant = (v.representative.at? path).map variant := by
    rw [at?_representative, Option.map_map]
    exact Option.map_congr fun x _ => (variant_representative x).symm
  rw [hvariant a, hvariant b, (same_iff a b).mp h]

/-! ## Texts -/

mutual

@[simp]
theorem spelling_representative : (v : Value) →
    v.representative.datum.spelling = v.datum.spelling
  | number x => x.spelling_representative
  | boolean _ | symbol _ | primitive .. | closure .. => rfl
  | list _ items => by
    rw [representative, datum, datum, Datum.spelling, Datum.spelling,
      spellingAll_representativeAll items]

theorem spellingAll_representativeAll : (items : List Value) →
    Datum.spellingAll (datumAll (representativeAll items)) =
      Datum.spellingAll (datumAll items)
  | [] => rfl
  | item :: items => by
    have hlater := spellingAll_representativeAll items
    have hitem := spelling_representative item
    cases items with
    | nil => exact hitem
    | cons next items =>
        rw [representativeAll, datumAll, datumAll] at hlater
        rw [representativeAll, representativeAll, datumAll, datumAll, datumAll, datumAll,
          Datum.spellingAll, Datum.spellingAll, hitem, hlater]

end

mutual

theorem writingDepth_representative : (v : Value) →
    v.representative.datum.writingDepth = v.datum.writingDepth
  | number _ | boolean _ | symbol _ | primitive .. | closure .. | list _ [] => rfl
  | list _ (item :: items) => by
    rw [representative, representativeAll, datum, datum, datumAll, datumAll,
      Datum.writingDepth, Datum.writingDepth, writingDepth_representative item,
      writingDepthAll_representativeAll items]

theorem writingDepthAll_representativeAll : (items : List Value) →
    Datum.writingDepthAll (datumAll (representativeAll items)) =
      Datum.writingDepthAll (datumAll items)
  | [] => rfl
  | item :: items => by
    rw [representativeAll, datumAll, datumAll, Datum.writingDepthAll, Datum.writingDepthAll,
      writingDepth_representative item, writingDepthAll_representativeAll items]

end

@[simp]
theorem text_representative (v : Value) : v.representative.text = v.text := by
  have hspelling := congrArg String.ofList (spelling_representative v)
  cases v with
  | list _ items =>
      cases items with
      | nil => rfl
      | cons item items => exact hspelling
  | _ => exact hspelling

/-- Values that are the same are written alike, whatever room there is to do so. -/
theorem write_eq_of_same {a b : Value} (h : a.same b = true) (room : Nat) :
    a.datum.write room = b.datum.write room := by
  have hwrite (v : Value) : v.datum.write room = v.representative.datum.write room := by
    have htext : v.representative.datum.text = v.datum.text := text_representative v
    rw [Datum.write, Datum.write, writingDepth_representative, htext]
  rw [hwrite a, hwrite b, (same_iff a b).mp h]

theorem text_eq_of_same {a b : Value} (h : a.same b = true) : a.text = b.text := by
  rw [← text_representative a, ← text_representative b, (same_iff a b).mp h]

/-! ## Room for a comparison -/

mutual

/-- Room that is enough to compare a value with any other. -/
def comparisonRoom : Value → Nat
  | list _ items => comparisonDepth + comparisonRoomAll items
  | _ => 0

def comparisonRoomAll : List Value → Nat
  | [] => 0
  | item :: items => max item.comparisonRoom (comparisonRoomAll items)

end

mutual

theorem sameWithin?_of_le : {room : Nat} → (a b : Value) → a.comparisonRoom ≤ room →
    a.sameWithin? room b = some (a.same b)
  | room, list i xs, b, hroom => by
    rw [comparisonRoom] at hroom
    cases b with
    | list j ys =>
        rw [sameWithin?, same]
        split
        · rfl
        · rw [if_neg (by omega)]
          exact sameAllWithin?_of_le xs ys (by omega)
    | _ => rfl
  | _, number _, _, _ | _, boolean _, _, _ | _, symbol _, _, _ | _, primitive .., _, _
  | _, closure .., _, _ => rfl

theorem sameAllWithin?_of_le : {room : Nat} → (xs ys : List Value) →
    comparisonRoomAll xs ≤ room → sameAllWithin? room xs ys = some (sameAll xs ys)
  | _, [], _, _ => by rw [sameAllWithin?]; simp
  | _, _ :: _, [], _ => by rw [sameAllWithin?]; simp
  | room, x :: xs, y :: ys, hroom => by
    rw [comparisonRoomAll] at hroom
    rw [sameAllWithin?, sameWithin?_of_le x y (by omega), sameAll]
    cases x.same y with
    | true => exact sameAllWithin?_of_le xs ys (by omega)
    | false => rfl

end

/-- A value is found to be the same as itself at once. -/
@[simp]
theorem sameWithin?_self (room : Nat) (v : Value) : v.sameWithin? room v = some true := by
  cases v with
  | list i items => rw [sameWithin?, if_pos (beq_self_eq_true i), sameItems_eq, sameAll_self]
  | _ => rw [sameWithin?, same_self]; simp

/-! ## The primitives -/

section Primitives

variable (room : Nat) (identity : Identity) (a b : Value) (place : FrameId) (s : Store)

theorem apply_identical : apply (room + 2) (.primitive identity .identical) [a, b] place s =
    .ok (.boolean (a.identical b)) s := by
  rw [apply, runPrimitive]
  rfl

theorem apply_equal : apply (room + 2) (.primitive identity .equal) [a, b] place s =
    match a.sameWithin? room b with
    | some answer => .ok (.boolean answer) s
    | none => .error .depthExceeded s := by
  rw [apply, runPrimitive, Primitive.run]
  dsimp only [Primitive.binary]
  cases a.sameWithin? room b <;> rfl

end Primitives

/-- The two equalities.  Both are equivalences, and identity is the finer one.  Values
that are the same have the same variants at every depth, lists are the same element by
element, and the text of values that are the same is the same.  These are the relations
that the two primitives answer with, without an effect: the one always, and the other
unless there is too little room for the comparison, which a value that is compared with
itself never needs. -/
theorem equalities_are_sound :
    (Equivalence fun a b : Value => a.identical b = true) ∧
      (Equivalence fun a b : Value => a.same b = true) ∧
      (∀ a b : Value, a.identical b = true → a.same b = true) ∧
      (∀ a b : Value, a.same b = true → ∀ path,
        (a.at? path).map variant = (b.at? path).map variant) ∧
      (∀ (i j : Identity) (xs ys : List Value), (list i xs).same (list j ys) = true ↔
        xs.length = ys.length ∧ ∀ (n : Nat) (hx : n < xs.length) (hy : n < ys.length),
          xs[n].same ys[n] = true) ∧
      (∀ a b : Value, a.same b = true →
        a.text = b.text ∧ ∀ room, a.datum.write room = b.datum.write room) ∧
      ∀ (room : Nat) (identity : Identity) (a b : Value) (place : FrameId) (s : Store),
        apply (room + 2) (.primitive identity .identical) [a, b] place s =
            .ok (.boolean (a.identical b)) s ∧
          (apply (room + 2) (.primitive identity .equal) [a, b] place s =
              .ok (.boolean (a.same b)) s ∨
            room < a.comparisonRoom ∧
              apply (room + 2) (.primitive identity .equal) [a, b] place s =
                .error .depthExceeded s) ∧
          apply (room + 2) (.primitive identity .equal) [a, a] place s =
            .ok (.boolean true) s := by
  refine ⟨equivalence_identical, equivalence_same, fun _ _ => same_of_identical,
    fun _ _ => variant_at?_of_same, ?_,
    fun _ _ h => ⟨text_eq_of_same h, write_eq_of_same h⟩, ?_⟩
  · intro i j xs ys
    rw [same, sameAll_iff_forall₂, List.forall₂_iff_get]
    exact Iff.rfl
  · intro room identity a b place s
    refine ⟨apply_identical room identity a b place s, ?_, ?_⟩
    · rw [apply_equal]
      cases hanswer : a.sameWithin? room b with
      | some answer =>
          rw [same_of_sameWithin? hanswer]
          exact .inl rfl
      | none =>
          refine .inr ⟨Nat.lt_of_not_le fun hroom => ?_, rfl⟩
          rw [sameWithin?_of_le a b hroom] at hanswer
          cases hanswer
    · rw [apply_equal, sameWithin?_self]

/-- Lists with zeros of either sign, a result that is no number, an empty list and a
procedure are the same and are not identical. -/
theorem equalities_are_sound_nested :
    let a := list 1 [number (.real (.zero false)), number (.nan 7), list 2 [],
      closure 3 [symbol "x"] (symbol "x") 0]
    let b := list 4 [number (.real (.zero true)), number (.nan 7), list 5 [],
      closure 3 [symbol "x"] (symbol "x") 0]
    a.same b = true ∧ a.identical b = false ∧ a.text = b.text ∧
      a.at? [3] = some (closure 3 [symbol "x"] (symbol "x") 0) ∧
      (b.at? [3]).map variant = some .closure := by
  obtain ⟨-, -, -, hvariants, hlists, htexts, -⟩ := equalities_are_sound
  intro a b
  have hsame : a.same b = true := by
    refine (hlists 1 4 _ _).mpr ⟨rfl, ?_⟩
    decide
  exact ⟨hsame, rfl, (htexts a b hsame).1, rfl, (hvariants a b hsame [3]).symm⟩

end Value

end Lisplet
