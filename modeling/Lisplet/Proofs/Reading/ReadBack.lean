import Lisplet.Failure
import Lisplet.Value
import Lisplet.Proofs.Reading.PrintedTree

/-!
# Reading a written value back

A list of any nesting that is written and read again keeps its shape: the result is the
list with every leaf replaced by what the text of the leaf denotes.  Procedures are
leaves too; they come back as the symbol that stands for them.
-/

namespace Lisplet

namespace Value

mutual

def leaves : Value → List Value
  | list _ items => leavesAll items
  | leaf => [leaf]

def leavesAll : List Value → List Value
  | [] => []
  | item :: items => item.leaves ++ leavesAll items

end

mutual

/-- A value with each leaf replaced by what its text denotes; lists stay lists, also
empty ones. -/
def reread : Value → Datum
  | list _ items => .list (rereadAll items)
  | leaf => Datum.ofToken leaf.text

def rereadAll : List Value → List Datum
  | [] => []
  | item :: items => item.reread :: rereadAll items

end

mutual

theorem leaves_datum : (v : Value) → v.datum.leaves = v.leaves.map datum
  | number _ | boolean _ | symbol _ | primitive .. | closure .. => rfl
  | list _ items => by
    rw [datum, Datum.leaves, leaves]
    exact leavesAll_datumAll items

theorem leavesAll_datumAll : (items : List Value) →
    Datum.leavesAll (datumAll items) = (leavesAll items).map datum
  | [] => rfl
  | item :: items => by
    rw [datumAll, Datum.leavesAll, leavesAll, List.map_append, leaves_datum item,
      leavesAll_datumAll items]

end

mutual

theorem reread_datum : (v : Value) → v.datum.reread = v.reread
  | number _ | boolean _ | symbol _ | primitive .. | closure .. => rfl
  | list _ items => by
    rw [datum, Datum.reread, reread, rereadAll_datumAll items]

theorem rereadAll_datumAll : (items : List Value) →
    Datum.rereadAll (datumAll items) = rereadAll items
  | [] => rfl
  | item :: items => by
    rw [datumAll, Datum.rereadAll, rereadAll, reread_datum item, rereadAll_datumAll items]

end

mutual

theorem leaves_ne_list : (v : Value) → ∀ leaf ∈ v.leaves, ∀ identity items,
    leaf ≠ list identity items
  | number _ | boolean _ | symbol _ | primitive .. | closure .. => by simp [leaves]
  | list _ items => leavesAll_ne_list items

theorem leavesAll_ne_list : (items : List Value) → ∀ leaf ∈ leavesAll items,
    ∀ identity elements, leaf ≠ list identity elements
  | [] => by simp [leavesAll]
  | item :: items =>
    List.forall_mem_append.mpr ⟨leaves_ne_list item, leavesAll_ne_list items⟩

end

/-- Every leaf is written as one word when the symbols are. -/
theorem solid_leaves {v : Value}
    (hsymbols : ∀ name, symbol name ∈ v.leaves → Token.Solid name.toList) :
    ∀ leaf ∈ v.datum.leaves, Token.Solid leaf.spelling := by
  rw [leaves_datum]
  intro leaf hleaf
  obtain ⟨value, hvalue, rfl⟩ := List.mem_map.mp hleaf
  have hprocedure : Token.Solid procedureName.toList := .of_all (by decide) (by decide)
  cases value with
  | number x => exact x.solid_spelling
  | boolean b => cases b <;> exact .of_all (by decide) (by decide)
  | symbol name => exact hsymbols name hvalue
  | list identity items => exact absurd rfl (leaves_ne_list v _ hvalue identity items)
  | primitive | closure => exact hprocedure

/-- The text of a list that is not empty is its written form. -/
theorem toList_text_cons (identity : Identity) (item : Value) (items : List Value) :
    (list identity (item :: items)).text.toList =
      (list identity (item :: items)).datum.spelling := by
  change (String.ofList _).toList = _
  rw [String.toList_ofList]
  rfl

/-! ## Values that come back as they were -/

mutual

/-- A value comes back the same when all its leaves do. -/
theorem same_reread : (v : Value) →
    (∀ leaf ∈ v.leaves, ∀ next, (leaf.reread.load next).1.same leaf = true) →
    ∀ next, (v.reread.load next).1.same v = true
  | number _, h | boolean _, h | symbol _, h | primitive .., h | closure .., h =>
    h _ (by simp [leaves])
  | list _ items, h => fun next => by
    simp only [reread, Datum.load, same]
    exact sameAll_rereadAll items h (next + 1)

theorem sameAll_rereadAll : (items : List Value) →
    (∀ leaf ∈ leavesAll items, ∀ next, (leaf.reread.load next).1.same leaf = true) →
    ∀ next, sameAll (Datum.loadAll (rereadAll items) next).1 items = true
  | [], _ => fun _ => rfl
  | item :: items, h => fun next => by
    rw [leavesAll, List.forall_mem_append] at h
    simp only [rereadAll, Datum.loadAll, sameAll, Bool.and_eq_true]
    exact ⟨same_reread item h.1 next, sameAll_rereadAll items h.2 _⟩

end

/-- Reading inverts writing on the tree structure.  A list that is not empty and whose
symbols are words is written when the room suffices, and its text is read to the last
token as the same tree over the reread leaves; when each leaf comes back the same, so
does the list. -/
theorem readDatum_text_list (limit : Nat) (identity : Identity) (item : Value)
    (items : List Value)
    (hsymbols : ∀ name, symbol name ∈ (list identity (item :: items)).leaves →
      Token.Solid name.toList)
    (hdepth : (list identity (item :: items)).datum.writingDepth ≤ limit) :
    (list identity (item :: items)).datum.write limit =
        .ok (list identity (item :: items)).text ∧
      readDatum limit (Token.split (list identity (item :: items)).text.toList) =
        (.ok (list identity (item :: items)).reread, []) ∧
      ((∀ leaf ∈ (list identity (item :: items)).leaves, ∀ next,
          ((Datum.ofToken leaf.text).load next).1.same leaf = true) →
        ∀ next, ((list identity (item :: items)).reread.load next).1.same
          (list identity (item :: items)) = true) := by
  refine ⟨if_pos hdepth, ?_, fun hleaves => same_reread _ fun leaf hleaf => ?_⟩
  · rw [toList_text_cons, Datum.readDatum_split_spelling (solid_leaves hsymbols) hdepth,
      reread_datum]
  · have hreread : leaf.reread = Datum.ofToken leaf.text := by
      cases leaf with
      | list identity items => exact absurd rfl (leaves_ne_list _ _ hleaf identity items)
      | _ => rfl
    rw [hreread]
    exact hleaves leaf hleaf

theorem readDatum_text_nested :
    (list 1 [symbol "f", list 2 [], list 3 [boolean true, primitive 4 .car]]).text =
        "(f () (#t <function>))" ∧
      readDatum 1000 (Token.split "(f () (#t <function>))".toList) =
        (.ok (.list [.symbol "f", .list [],
          .list [.boolean true, .symbol "<function>"]]), []) := by
  have hsymbols : ∀ name, symbol name ∈
      (list 1 [symbol "f", list 2 [], list 3 [boolean true, primitive 4 .car]]).leaves →
      Token.Solid name.toList := by
    intro name hname
    obtain rfl : name = "f" := by simpa [leaves, leavesAll] using hname
    exact .of_all (by decide) (by decide)
  have htext : (list 1 [symbol "f", list 2 [], list 3 [boolean true, primitive 4 .car]]).text =
      "(f () (#t <function>))" := by decide +kernel
  have hread := (readDatum_text_list 1000 1 (symbol "f")
    [list 2 [], list 3 [boolean true, primitive 4 .car]] hsymbols (by decide)).2.1
  rw [htext] at hread
  exact ⟨htext, hread⟩

end Value

end Lisplet
