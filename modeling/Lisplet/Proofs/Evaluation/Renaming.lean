import Mathlib.Data.List.Find
import Mathlib.Data.Nat.Basic
import Mathlib.Order.Monotone.Basic
import Lisplet.Procedure
import Lisplet.Proofs.Evaluation.Bindings

/-!
# Renaming places and identities

Nothing that a program sees depends on which places the frames have and on which
identities the lists and procedures have: a value is shown without them, and comparisons
and primitives only ask whether two identities are one.  So a renaming of both that keeps
them apart is not seen.
-/

namespace Lisplet

/-- New places for frames and new identities, in the same order.  Identity `0` is never
handed out and stays as it is. -/
structure Renaming where
  place : FrameId → FrameId
  identity : Identity → Identity
  place_strictMono : StrictMono place
  identity_strictMono : StrictMono identity
  identity_zero : identity 0 = 0

namespace Renaming

def same : Renaming := ⟨id, id, strictMono_id, strictMono_id, rfl⟩

@[simp]
theorem place_same (place : FrameId) : same.place place = place := rfl

@[simp]
theorem identity_same (identity : Identity) : same.identity identity = identity := rfl

@[simp]
theorem place_inj (r : Renaming) {place other : FrameId} :
    r.place place = r.place other ↔ place = other :=
  r.place_strictMono.injective.eq_iff

@[simp]
theorem identity_inj (r : Renaming) {identity other : Identity} :
    r.identity identity = r.identity other ↔ identity = other :=
  r.identity_strictMono.injective.eq_iff

end Renaming

variable (r : Renaming)

/-! ## Data and failures -/

namespace Number

/-- The mark of what is no number is an identity. -/
def rename : Number → Number
  | real x => real x
  | nan mark => nan (r.identity mark)

@[simp]
theorem rename_same (x : Number) : x.rename .same = x := by cases x <;> rfl

@[simp]
theorem spelling_rename (x : Number) : (x.rename r).spelling = x.spelling := by cases x <;> rfl

@[simp]
theorem same_rename (x y : Number) : (x.rename r).same (y.rename r) = x.same y := by
  cases x <;> cases y <;> simp [rename, same]

end Number

@[simp]
theorem Arithmetic.outcome_rename (kind : Arithmetic) (x y : Number) :
    kind.outcome (x.rename r) (y.rename r) = kind.outcome x y := by
  cases kind <;> cases x <;> cases y <;> rfl

@[simp]
theorem Comparison.holds_rename (relation : Comparison) (x y : Number) :
    relation.holds (x.rename r) (y.rename r) = relation.holds x y := by
  cases relation <;> cases x <;> cases y <;> rfl

namespace Datum

mutual

def rename : Datum → Datum
  | number x => number (x.rename r)
  | boolean b => boolean b
  | symbol name => symbol name
  | list items => list (renameAll items)

def renameAll : List Datum → List Datum
  | [] => []
  | item :: items => item.rename :: renameAll items

end

theorem renameAll_eq_map (items : List Datum) : renameAll r items = items.map (rename r) := by
  induction items with
  | nil => rfl
  | cons item items ih => rw [renameAll, ih, List.map_cons]

mutual

@[simp]
theorem rename_same : (d : Datum) → d.rename .same = d
  | number x => by rw [rename, Number.rename_same]
  | boolean _ | symbol _ => rfl
  | list items => by rw [rename, renameAll_same items]

@[simp]
theorem renameAll_same : (items : List Datum) → renameAll .same items = items
  | [] => rfl
  | item :: items => by rw [renameAll, rename_same item, renameAll_same items]

end

mutual

/-- The marks are not written down. -/
@[simp]
theorem spelling_rename : (d : Datum) → (d.rename r).spelling = d.spelling
  | number x => x.spelling_rename r
  | boolean _ | symbol _ => rfl
  | list items => by rw [rename, spelling, spelling, spellingAll_renameAll items]

@[simp]
theorem spellingAll_renameAll : (items : List Datum) →
    spellingAll (renameAll r items) = spellingAll items
  | [] => rfl
  | [item] => spelling_rename item
  | item :: next :: items => by
    have hrest := spellingAll_renameAll (next :: items)
    rw [renameAll] at hrest
    rw [renameAll, renameAll, spellingAll, spellingAll, spelling_rename item, hrest]

end

@[simp]
theorem nestedText_rename (d : Datum) : (d.rename r).nestedText = d.nestedText := by
  rw [nestedText, nestedText, spelling_rename]

@[simp]
theorem text_rename (d : Datum) : (d.rename r).text = d.text := by
  cases d with
  | list items => cases items with
    | nil => rfl
    | cons item items => exact nestedText_rename r (list (item :: items))
  | _ => exact nestedText_rename r _

mutual

@[simp]
theorem writingDepth_rename : (d : Datum) → (d.rename r).writingDepth = d.writingDepth
  | number _ | boolean _ | symbol _ | list [] => rfl
  | list (item :: items) => by
    rw [rename, renameAll, writingDepth, writingDepth, writingDepth_rename item,
      writingDepthAll_renameAll items]

@[simp]
theorem writingDepthAll_renameAll : (items : List Datum) →
    writingDepthAll (renameAll r items) = writingDepthAll items
  | [] => rfl
  | item :: items => by
    rw [renameAll, writingDepthAll, writingDepthAll, writingDepth_rename item,
      writingDepthAll_renameAll items]

end

end Datum

namespace Failure

def rename : Failure → Failure
  | noCode => noCode
  | unexpectedEnd => unexpectedEnd
  | unexpectedClose => unexpectedClose
  | unbound name => unbound name
  | operandCount form => operandCount form
  | argumentCount primitive expected given => argumentCount primitive expected given
  | emptyList primitive => emptyList primitive
  | depthExceeded => depthExceeded
  | parameterCount expected given parameters => parameterCount expected given (parameters.rename r)
  | expectedNumber primitive got => expectedNumber primitive (got.rename r)
  | expectedList primitive got => expectedList primitive (got.rename r)
  | expectedBoolean primitive got => expectedBoolean primitive (got.rename r)
  | testNotBoolean got => testNotBoolean (got.rename r)
  | definedNotSymbol got => definedNotSymbol (got.rename r)
  | assignedNotSymbol got => assignedNotSymbol (got.rename r)
  | parametersNotList got => parametersNotList (got.rename r)
  | parameterNotSymbol got => parameterNotSymbol (got.rename r)
  | notProcedure got => notProcedure (got.rename r)
  | boundNotSymbol got => boundNotSymbol (got.rename r)
  | cannotDefine got => cannotDefine (got.rename r)
  | cannotAssign got => cannotAssign (got.rename r)

@[simp]
theorem rename_same (failure : Failure) : failure.rename .same = failure := by
  cases failure <;> simp [rename]

/-- A failure is reported without its marks. -/
@[simp]
theorem report_rename (failure : Failure) : (failure.rename r).report = failure.report := by
  have hkind : (failure.rename r).kind = failure.kind := by
    cases failure <;> simp only [rename, kind]
  -- the equations of so long a case distinction are slow to make
  have hmessage : (failure.rename r).message = failure.message := by
    delta message
    cases failure <;> simp only [rename, Datum.nestedText_rename, Datum.text_rename]
  rw [report, report, hkind, hmessage]

end Failure

/-! ## Values -/

namespace Value

mutual

def rename : Value → Value
  | number x => number (x.rename r)
  | boolean b => boolean b
  | symbol name => symbol name
  | list identity items => list (r.identity identity) (renameAll items)
  | primitive identity operation => primitive (r.identity identity) operation
  | closure identity parameters body scope =>
    closure (r.identity identity) (renameAll parameters) body.rename (r.place scope)

def renameAll : List Value → List Value
  | [] => []
  | item :: items => item.rename :: renameAll items

end

@[simp]
theorem renameAll_eq_map (items : List Value) : renameAll r items = items.map (rename r) := by
  induction items with
  | nil => rfl
  | cons item items ih => rw [renameAll, ih, List.map_cons]

@[simp]
theorem rename_number (x : Number) : (number x).rename r = number (x.rename r) := rfl

@[simp]
theorem rename_boolean (b : Bool) : (boolean b).rename r = boolean b := rfl

@[simp]
theorem rename_symbol (name : String) : (symbol name).rename r = symbol name := rfl

@[simp]
theorem rename_list (identity : Identity) (items : List Value) :
    (list identity items).rename r = list (r.identity identity) (items.map (rename r)) := by
  rw [rename, renameAll_eq_map]

@[simp]
theorem rename_primitive (identity : Identity) (operation : Primitive) :
    (primitive identity operation).rename r = primitive (r.identity identity) operation := rfl

@[simp]
theorem rename_closure (identity : Identity) (parameters : List Value) (body : Value)
    (scope : FrameId) :
    (closure identity parameters body scope).rename r =
      closure (r.identity identity) (parameters.map (rename r)) (body.rename r)
        (r.place scope) := by
  rw [rename, renameAll_eq_map]


mutual

@[simp]
theorem rename_same : (v : Value) → v.rename .same = v
  | number x => by rw [rename_number, Number.rename_same]
  | boolean _ | symbol _ | primitive .. => rfl
  | list _ items => by rw [rename_list, map_rename_same items]; rfl
  | closure _ parameters body _ => by
    rw [rename_closure, map_rename_same parameters, rename_same body]
    rfl

@[simp]
theorem map_rename_same : (items : List Value) → items.map (rename .same) = items
  | [] => rfl
  | item :: items => by rw [List.map_cons, rename_same item, map_rename_same items]

end

@[simp]
theorem rename_same_eq_id : rename .same = id := funext rename_same

mutual

/-- What shows a value holds no places, and no identities but the marks. -/
@[simp]
theorem datum_rename : (v : Value) → (v.rename r).datum = v.datum.rename r
  | number _ | boolean _ | symbol _ | primitive .. | closure .. => rfl
  | list _ items => by
    rw [rename_list, datum, datum, Datum.rename, datumAll_map_rename items]

@[simp]
theorem datumAll_map_rename : (items : List Value) →
    datumAll (items.map (rename r)) = Datum.renameAll r (datumAll items)
  | [] => rfl
  | item :: items => by
    rw [List.map_cons, datumAll, datumAll, Datum.renameAll, datum_rename item,
      datumAll_map_rename items]

end

/-! ## Comparisons -/

mutual

@[simp]
theorem same_rename : (a b : Value) → (a.rename r).same (b.rename r) = a.same b
  | number x, number y => x.same_rename r y
  | boolean _, boolean _ | symbol _, symbol _ => rfl
  | list _ xs, list _ ys => by rw [rename_list, rename_list, same, same, sameAll_rename xs ys]
  | primitive .., primitive .. | closure .., closure .. => by
    simp [same, beq_eq_decide]
  | number _, boolean _ | number _, symbol _ | number _, list .. | number _, primitive ..
  | number _, closure .. | boolean _, number _ | boolean _, symbol _ | boolean _, list ..
  | boolean _, primitive .. | boolean _, closure .. | symbol _, number _ | symbol _, boolean _
  | symbol _, list .. | symbol _, primitive .. | symbol _, closure .. | list .., number _
  | list .., boolean _ | list .., symbol _ | list .., primitive .. | list .., closure ..
  | primitive .., number _ | primitive .., boolean _ | primitive .., symbol _
  | primitive .., list .. | primitive .., closure .. | closure .., number _
  | closure .., boolean _ | closure .., symbol _ | closure .., list .. | closure .., primitive .. =>
    rfl

@[simp]
theorem sameAll_rename : (xs ys : List Value) →
    sameAll (xs.map (rename r)) (ys.map (rename r)) = sameAll xs ys
  | [], [] | [], _ :: _ | _ :: _, [] => rfl
  | x :: xs, y :: ys => by
    rw [List.map_cons, List.map_cons, sameAll, sameAll, same_rename x y, sameAll_rename xs ys]

end

@[simp]
theorem identical_rename (a b : Value) : (a.rename r).identical (b.rename r) = a.identical b := by
  cases a with
  | list i xs =>
      cases b with
      | list j ys =>
          simp [identical, beq_eq_decide]
      | _ => rfl
  | _ =>
      cases b with
      | list j ys => exact same_rename r _ (list j ys)
      | _ => exact same_rename r _ _

mutual

@[simp]
theorem sameWithin?_rename (room : Nat) : (a b : Value) →
    (a.rename r).sameWithin? room (b.rename r) = a.sameWithin? room b
  | list i xs, list j ys => by
    rw [rename_list, rename_list, sameWithin?, sameWithin?]
    simp only [beq_eq_decide, Renaming.identity_inj, sameItems_eq, sameAll_rename r xs ys,
      sameAllWithin?_rename _ xs ys]
  | number x, b => congrArg some (same_rename r (number x) b)
  | boolean c, b => congrArg some (same_rename r (boolean c) b)
  | symbol name, b => congrArg some (same_rename r (symbol name) b)
  | primitive i p, b => congrArg some (same_rename r (primitive i p) b)
  | closure i ps body scope, b => congrArg some (same_rename r (closure i ps body scope) b)
  | list .., number _ | list .., boolean _ | list .., symbol _ | list .., primitive ..
  | list .., closure .. => rfl

@[simp]
theorem sameAllWithin?_rename (room : Nat) : (xs ys : List Value) →
    sameAllWithin? room (xs.map (rename r)) (ys.map (rename r)) = sameAllWithin? room xs ys
  | [], [] | [], _ :: _ | _ :: _, [] => rfl
  | x :: xs, y :: ys => by
    rw [List.map_cons, List.map_cons, sameAllWithin?, sameAllWithin?,
      sameWithin?_rename room x y, sameAllWithin?_rename room xs ys]

end

/-! ## Forms, primitives and parameters -/

@[simp]
theorem isVariant_rename (test : VariantTest) (v : Value) :
    (v.rename r).isVariant test = v.isVariant test := by
  cases test <;> cases v <;> simp [isVariant, isProcedure]

@[simp]
theorem isSymbol_rename (v : Value) :
    SpecialForm.isSymbol (v.rename r) = SpecialForm.isSymbol v := by
  cases v <;> simp [SpecialForm.isSymbol]

/-- The first one among parameters that is no symbol. -/
theorem find?_not_isSymbol_rename (parameters : List Value) :
    (parameters.map (rename r)).find? (!SpecialForm.isSymbol ·) =
      (parameters.find? (!SpecialForm.isSymbol ·)).map (rename r) := by
  rw [List.find?_map]
  refine congrArg (Option.map _) (List.find?_congr fun v _ => ?_)
  rw [Function.comp_apply, isSymbol_rename]

@[simp]
theorem ofHead?_rename (v : Value) : SpecialForm.ofHead? (v.rename r) = SpecialForm.ofHead? v := by
  cases v <;> simp [SpecialForm.ofHead?]

end Value

/-! ## Bindings -/

namespace Bindings

def rename (bindings : Bindings) : Bindings := bindings.map fun entry => (entry.1, entry.2.rename r)

@[simp]
theorem rename_same (bindings : Bindings) : bindings.rename .same = bindings := by
  simp [rename]

@[simp]
theorem get?_rename (bindings : Bindings) (name : String) :
    (bindings.rename r).get? name = (bindings.get? name).map (Value.rename r) := by
  induction bindings with
  | nil => rfl
  | cons entry bindings ih =>
      obtain ⟨key, value⟩ := entry
      rw [rename] at ih
      rw [rename, List.map_cons, get?_cons, get?_cons, ih]
      split <;> rfl

@[simp]
theorem put_rename (bindings : Bindings) (name : String) (v : Value) :
    (bindings.rename r).put name (v.rename r) = (bindings.put name v).rename r := by
  induction bindings with
  | nil => rfl
  | cons entry bindings ih =>
      obtain ⟨key, old⟩ := entry
      rw [rename, rename] at ih
      rw [rename, rename, List.map_cons, put, put, ih]
      split <;> rfl

end Bindings

namespace Computation

theorem bindingsOf_rename (parameters arguments : List Value) (bindings : Bindings) :
    bindingsOf (parameters.map (Value.rename r)) (arguments.map (Value.rename r))
        (bindings.rename r) =
      match bindingsOf parameters arguments bindings with
      | .ok result => .ok (result.rename r)
      | .error other => .error (other.rename r) := by
  induction parameters generalizing arguments bindings with
  | nil => cases arguments <;> rfl
  | cons parameter parameters ih =>
      cases arguments with
      | nil => cases parameter <;> rfl
      | cons argument arguments =>
          cases parameter with
          | symbol name =>
              have hrest := ih arguments (bindings.put name argument)
              rwa [← Bindings.put_rename] at hrest
          | _ => simp [bindingsOf]

end Computation

/-! ## Outcomes -/

def Renaming.outcome {α β : Type} (through : α → β) : Except Failure α → Except Failure β
  | .ok answer => .ok (through answer)
  | .error failure => .error (failure.rename r)

@[simp]
theorem Renaming.outcome_same {α : Type} (outcome : Except Failure α) :
    same.outcome id outcome = outcome := by
  cases outcome <;> simp [Renaming.outcome]

end Lisplet
