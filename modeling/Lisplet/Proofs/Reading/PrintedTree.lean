import Lisplet.Proofs.Decimal.Spelling
import Lisplet.Proofs.Reading.SyntaxTree

/-!
# The tree of a written datum

The tokens of a written datum are the tokens of a tree of the same shape, as long as
what is written at every leaf is one word.  Reading them gives the datum back with each
leaf replaced by what its written form denotes.
-/

namespace Lisplet

namespace Datum

mutual

/-- What a datum holds that is no list, from left to right. -/
def leaves : Datum → List Datum
  | list items => leavesAll items
  | leaf => [leaf]

def leavesAll : List Datum → List Datum
  | [] => []
  | item :: items => item.leaves ++ leavesAll items

end

mutual

/-- A datum with each leaf replaced by what its written form denotes. -/
def reread : Datum → Datum
  | list items => .list (rereadAll items)
  | leaf => ofToken leaf.nestedText

def rereadAll : List Datum → List Datum
  | [] => []
  | item :: items => item.reread :: rereadAll items

end

/-- A list is written between parentheses and stands apart from what comes before it. -/
theorem startsApart_blank (cs : List Char) : Token.StartsApart (' ' :: cs) :=
  Token.startsApart_cons (by decide)

theorem startsApart_closing (cs : List Char) : Token.StartsApart (')' :: cs) :=
  Token.startsApart_cons (by decide)

/-- A tree that a text starts with, and what it tells about reading the text. -/
structure SpelledBy (d : Datum) (tree : SyntaxTree) : Prop where
  tokens : ∀ rest, Token.StartsApart rest →
    Token.split (d.spelling ++ rest) = tree.tokens ++ Token.split rest
  datum : tree.datum = d.reread
  depth : tree.depth ≤ d.writingDepth

structure AllSpelledBy (items : List Datum) (trees : List SyntaxTree) : Prop where
  tokens : ∀ rest, Token.StartsApart rest →
    Token.split (spellingAll items ++ rest) = SyntaxTree.tokensAll trees ++ Token.split rest
  datum : SyntaxTree.datumAll trees = rereadAll items
  depth : SyntaxTree.depthAll trees ≤ writingDepthAll items

/-- A leaf that is written as one word. -/
theorem exists_spelledBy_leaf {d : Datum} (hleaf : ∀ items, d ≠ list items)
    (hsolid : Token.Solid d.spelling) : ∃ tree, SpelledBy d tree := by
  refine ⟨.leaf ⟨d.nestedText, hsolid.ne_paren.1, hsolid.ne_paren.2⟩,
    ⟨?_, ?_, ?_⟩⟩
  · intro rest hrest
    rw [Token.split_solid_append hsolid hrest]
    rfl
  · cases d with
    | list items => exact absurd rfl (hleaf items)
    | _ => rfl
  · cases d with
    | list items => exact absurd rfl (hleaf items)
    | _ => simp [SyntaxTree.depth, writingDepth]

mutual

theorem exists_spelledBy : (d : Datum) → (∀ leaf ∈ d.leaves, Token.Solid leaf.spelling) →
    ∃ tree, SpelledBy d tree
  | number x, h => exists_spelledBy_leaf (by simp) (h _ (by simp [leaves]))
  | boolean b, h => exists_spelledBy_leaf (by simp) (h _ (by simp [leaves]))
  | symbol name, h => exists_spelledBy_leaf (by simp) (h _ (by simp [leaves]))
  | list items, h => by
    obtain ⟨trees, htrees⟩ := exists_allSpelledBy items h
    refine ⟨.branch trees, ⟨?_, ?_, ?_⟩⟩
    · intro rest _
      simp only [spelling, List.cons_append, List.append_assoc, List.nil_append]
      rw [Token.split_opening, htrees.tokens _ (startsApart_closing rest), Token.split_closing]
      simp [SyntaxTree.tokens]
    · rw [SyntaxTree.datum, htrees.datum, reread]
    · have hdepth := htrees.depth
      rw [SyntaxTree.depth]
      cases items with
      | nil => simpa [writingDepth, writingDepthAll] using hdepth
      | cons item items =>
          rw [writingDepthAll] at hdepth
          rw [writingDepth]
          omega

theorem exists_allSpelledBy : (items : List Datum) →
    (∀ leaf ∈ leavesAll items, Token.Solid leaf.spelling) →
    ∃ trees, AllSpelledBy items trees
  | [], _ => ⟨[], fun _ _ => rfl, rfl, Nat.le_refl _⟩
  | [item], h => by
    rw [leavesAll, leavesAll, List.append_nil] at h
    obtain ⟨tree, htree⟩ := exists_spelledBy item h
    refine ⟨[tree], ⟨?_, ?_, ?_⟩⟩
    · intro rest hrest
      rw [spellingAll, htree.tokens rest hrest]
      simp [SyntaxTree.tokensAll]
    · simp [SyntaxTree.datumAll, rereadAll, htree.datum]
    · simpa [SyntaxTree.depthAll, writingDepthAll] using htree.depth
  | item :: next :: items, h => by
    rw [leavesAll, List.forall_mem_append] at h
    obtain ⟨tree, htree⟩ := exists_spelledBy item h.1
    obtain ⟨trees, htrees⟩ := exists_allSpelledBy (next :: items) h.2
    refine ⟨tree :: trees, ⟨?_, ?_, ?_⟩⟩
    · intro rest hrest
      -- the space between two elements ends the first one and is dropped
      rw [spellingAll, List.append_assoc, List.cons_append, htree.tokens _ (startsApart_blank _),
        Token.split_blank _ (by decide), htrees.tokens rest hrest]
      simp [SyntaxTree.tokensAll]
    · rw [SyntaxTree.datumAll, htree.datum, htrees.datum]
      rfl
    · rw [SyntaxTree.depthAll, writingDepthAll]
      have hdepth := htree.depth
      have hdepths := htrees.depth
      omega

end

/-- Reading a written datum gives it back with each leaf reread, and leaves no token. -/
theorem readDatum_split_spelling {d : Datum} {limit : Nat}
    (hsolid : ∀ leaf ∈ d.leaves, Token.Solid leaf.spelling)
    (hdepth : d.writingDepth ≤ limit) :
    readDatum limit (Token.split d.spelling) = (.ok d.reread, []) := by
  obtain ⟨tree, htree⟩ := exists_spelledBy d hsolid
  have htokens := htree.tokens [] Token.startsApart_nil
  rw [List.append_nil, Token.split_nil] at htokens
  rw [htokens, SyntaxTree.readDatum_tokens tree [] (Nat.le_trans htree.depth hdepth), htree.datum]

end Datum

end Lisplet
