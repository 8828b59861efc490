import Lisplet.Datum.Basic
import Lisplet.Primitive
import Lisplet.SpecialForm

/-!
# Values

What expressions evaluate to, and also what is evaluated: code is data.  Lists and
procedures have an identity, by which `eq?` tells them apart; the identities are numbers
that the store hands out.  Two relations compare values: `same` looks at the structure,
and `identical` at the identity where there is one.  `sameWithin?` is the first of them
under a bound on nested calls.
-/

namespace Lisplet

/-- The place of a frame in the store. -/
abbrev FrameId := Nat

/-- What tells two lists or procedures apart that look alike. -/
abbrev Identity := Nat

inductive Value where
  | number (x : Number)
  | boolean (b : Bool)
  | symbol (name : String)
  | list (identity : Identity) (items : List Value)
  | primitive (identity : Identity) (operation : Primitive)
  | closure (identity : Identity) (parameters : List Value) (body : Value) (scope : FrameId)
deriving Inhabited

namespace Value

def isProcedure : Value → Bool
  | primitive .. | closure .. => true
  | _ => false

def procedureName : String := "<function>"

mutual

/-- The datum that shows a value: identities are dropped, and a procedure is a symbol. -/
def datum : Value → Datum
  | number x => .number x
  | boolean b => .boolean b
  | symbol name => .symbol name
  | list _ items => .list (datumAll items)
  | primitive .. => .symbol procedureName
  | closure .. => .symbol procedureName

def datumAll : List Value → List Datum
  | [] => []
  | item :: items => item.datum :: datumAll items

end

def text (v : Value) : String := v.datum.text

mutual

/-- Structural equality: numbers by value, lists element by element, procedures by
identity. -/
def same : Value → Value → Bool
  | number x, number y => x.same y
  | boolean a, boolean b => a == b
  | symbol a, symbol b => a == b
  | list _ xs, list _ ys => sameAll xs ys
  | primitive i p, primitive j q => i == j && p == q
  | closure i .., closure j .. => i == j
  | _, _ => false

def sameAll : List Value → List Value → Bool
  | [], [] => true
  | x :: xs, y :: ys => x.same y && sameAll xs ys
  | _, _ => false

end

mutual

theorem same_self : (v : Value) → v.same v = true
  | number (.real x) => by simp [same, Number.same, Double.same]
  | number (.nan mark) => by simp [same, Number.same]
  | boolean b => by simp [same]
  | symbol name => by simp [same]
  | list _ items => by rw [same]; exact sameAll_self items
  | primitive .. => by simp [same]
  | closure .. => by simp [same]

theorem sameAll_self : (items : List Value) → sameAll items items = true
  | [] => rfl
  | item :: items => by rw [sameAll, same_self item, sameAll_self items]; rfl

end

/-- Structural equality of two lists of elements; one list in memory is not walked
through. -/
def sameItems (xs ys : List Value) : Bool :=
  withPtrEq xs ys (fun _ => sameAll xs ys) fun h => h ▸ sameAll_self xs

@[simp]
theorem sameItems_eq (xs ys : List Value) : sameItems xs ys = sameAll xs ys := rfl

/-- Identity: two lists are identical when both are empty or when they are one list;
other values are compared by `same`. -/
def identical : Value → Value → Bool
  | list i xs, list j ys => (xs.isEmpty && ys.isEmpty) || (i == j && sameItems xs ys)
  | a, b => a.same b

/-- How many nested calls comparing two different lists takes, their elements apart. -/
def comparisonDepth : Nat := 4

mutual

/-- Structural equality, unless finding it out nests more calls than there is room for.
One list is equal to itself without a look at its elements, and nothing after the first
difference is looked at. -/
def sameWithin? (room : Nat) : Value → Value → Option Bool
  | list i xs, list j ys =>
    if i == j then some (sameItems xs ys)
    else if room < comparisonDepth then none
    else sameAllWithin? (room - comparisonDepth) xs ys
  | a, b => some (a.same b)

def sameAllWithin? (room : Nat) : List Value → List Value → Option Bool
  | x :: xs, y :: ys =>
    match x.sameWithin? room y with
    | some true => sameAllWithin? room xs ys
    | other => other
  | xs, ys => some (sameAll xs ys)

end

mutual

/-- With enough room the answer is that of `same`. -/
theorem same_of_sameWithin? : {room : Nat} → {a b : Value} → {answer : Bool} →
    a.sameWithin? room b = some answer → a.same b = answer
  | room, list i xs, list j ys, answer, h => by
    rw [sameWithin?] at h
    rw [same]
    split at h
    · exact Option.some.inj h
    · split at h
      · cases h
      · exact sameAll_of_sameAllWithin? h
  | _, number _, _, _, h | _, boolean _, _, _, h | _, symbol _, _, _, h
  | _, primitive .., _, _, h | _, closure .., _, _, h => by
    exact Option.some.inj h
  | _, list .., number _, _, h | _, list .., boolean _, _, h | _, list .., symbol _, _, h
  | _, list .., primitive .., _, h | _, list .., closure .., _, h => by
    exact Option.some.inj h

theorem sameAll_of_sameAllWithin? : {room : Nat} → {xs ys : List Value} → {answer : Bool} →
    sameAllWithin? room xs ys = some answer → sameAll xs ys = answer
  | room, x :: xs, y :: ys, answer, h => by
    rw [sameAllWithin?] at h
    rw [sameAll]
    split at h
    · next first => rw [same_of_sameWithin? first, Bool.true_and]; exact sameAll_of_sameAllWithin? h
    · next first =>
      cases answer with
      | true => exact absurd h first
      | false => rw [same_of_sameWithin? h, Bool.false_and]
  | _, [], _, _, h | _, _ :: _, [], _, h => by
    exact Option.some.inj h

end

def isVariant : VariantTest → Value → Bool
  | .list, list .. => true
  | .null, list _ items => items.isEmpty
  | .number, number _ => true
  | .procedure, v => v.isProcedure
  | .symbol, symbol _ => true
  | .boolean, boolean _ => true
  | _, _ => false

end Value

namespace Datum

mutual

/-- Makes a value of a datum; every list in it takes the next identity from the supply. -/
def load : Datum → Identity → Value × Identity
  | number x, next => (.number x, next)
  | boolean b, next => (.boolean b, next)
  | symbol name, next => (.symbol name, next)
  | list items, next =>
    let (values, later) := loadAll items (next + 1)
    (.list next values, later)

def loadAll : List Datum → Identity → List Value × Identity
  | [], next => ([], next)
  | item :: items, next =>
    let (value, later) := item.load next
    let (values, last) := loadAll items later
    (value :: values, last)

end

end Datum

namespace SpecialForm

def ofHead? : Value → Option SpecialForm
  | .symbol name => ofKeyword? name
  | _ => none

end SpecialForm

end Lisplet
