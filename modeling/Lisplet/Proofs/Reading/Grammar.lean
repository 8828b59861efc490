import Lisplet.Proofs.Reading.SyntaxTree

/-!
# The grammar of forms

A row of tokens starts with at most one tree, and a row of trees has one reading only.
The reader answers with the tree at the front and leaves what follows it.  When there is
none, either a parenthesis that closes nothing stands at the front, and it alone is used
up, or the tokens come to an end too early, and all of them are.
-/

namespace Lisplet

theorem Token.Word.eq_of_text {word other : Token.Word} (h : word.text = other.text) :
    word = other := by
  cases word
  cases other
  cases h
  rfl

namespace SyntaxTree

/-! ## A row of tokens starts with one tree -/

mutual

/-- No tree starts where another one starts and ends elsewhere. -/
theorem tokens_append_inj : (tree other : SyntaxTree) → (rest left : List String) →
    tree.tokens ++ rest = other.tokens ++ left → tree = other ∧ rest = left
  | leaf word, leaf other, rest, left, h => by
    obtain ⟨htext, hrest⟩ := List.cons.inj h
    exact ⟨congrArg leaf (Token.Word.eq_of_text htext), hrest⟩
  | leaf word, branch _, _, _, h => absurd (List.cons.inj h).1 word.ne_opening
  | branch _, leaf word, _, _, h => absurd (List.cons.inj h).1.symm word.ne_opening
  | branch children, branch others, rest, left, h => by
    simp only [tokens, List.cons_append, List.append_assoc, List.nil_append, List.cons.injEq,
      true_and] at h
    obtain ⟨rfl, hrest⟩ := tokensAll_append_closing_inj children others rest left h
    exact ⟨rfl, hrest⟩

/-- The children of a branch end where its closing parenthesis stands. -/
theorem tokensAll_append_closing_inj : (trees others : List SyntaxTree) →
    (rest left : List String) →
    tokensAll trees ++ Token.closing :: rest = tokensAll others ++ Token.closing :: left →
    trees = others ∧ rest = left
  | [], [], _, _, h => ⟨rfl, (List.cons.inj h).2⟩
  | [], other :: others, _, left, h => by
    obtain ⟨token, later, htokens, hclosing⟩ := head_tokens_ne_closing other
    rw [tokensAll, tokensAll, htokens] at h
    exact absurd (List.cons.inj h).1.symm hclosing
  | tree :: trees, [], rest, _, h => by
    obtain ⟨token, later, htokens, hclosing⟩ := head_tokens_ne_closing tree
    rw [tokensAll, tokensAll, htokens] at h
    exact absurd (List.cons.inj h).1 hclosing
  | tree :: trees, other :: others, rest, left, h => by
    rw [tokensAll, tokensAll, List.append_assoc, List.append_assoc] at h
    obtain ⟨rfl, hlater⟩ := tokens_append_inj tree other _ _ h
    obtain ⟨rfl, hrest⟩ := tokensAll_append_closing_inj trees others rest left hlater
    exact ⟨rfl, hrest⟩

end

/-- A row of tokens is a row of trees in one way only. -/
theorem tokensAll_inj {trees others : List SyntaxTree} (h : tokensAll trees = tokensAll others) :
    trees = others :=
  (tokensAll_append_closing_inj trees others [] [] (by rw [h])).1

/-! ## What stands at the front -/

/-- A row of tokens that starts with no tree starts with a parenthesis that closes
nothing, or opens branches that it never closes. -/
theorem exists_front (row : List String) :
    (∃ (tree : SyntaxTree) (rest : List String), row = tree.tokens ++ rest) ∨
      (∃ later, row = Token.closing :: later) ∨ ∃ branches, row = openTokens branches := by
  obtain ⟨trees, remnant, rfl⟩ := Remnant.exists_eq_tokensAll_append row
  cases trees with
  | cons tree trees => exact .inl ⟨tree, _, by rw [tokensAll, List.append_assoc]⟩
  | nil =>
      cases remnant with
      | nothing => exact .inr (.inr ⟨[], rfl⟩)
      | stray later => exact .inr (.inl ⟨later, rfl⟩)
      | unclosed children inner => exact .inr (.inr ⟨children :: inner, rfl⟩)

section Reading

variable {limit : Nat} {row rest : List String} {datum : Datum}

/-- An answer of the reader is a tree that stands at the front and fits. -/
theorem readDatum_eq_ok_iff : readDatum limit row = (.ok datum, rest) ↔
    ∃ tree : SyntaxTree, row = tree.tokens ++ rest ∧ tree.depth ≤ limit ∧ datum = tree.datum := by
  constructor
  · intro hread
    obtain ⟨tree, left, rfl⟩ | ⟨later, rfl⟩ | ⟨branches, rfl⟩ := exists_front row
    · by_cases hfits : tree.depth ≤ limit
      · rw [readDatum_tokens tree left hfits] at hread
        cases hread
        exact ⟨tree, rfl, hfits, rfl⟩
      · have hdeep := readFrom_tokens_deep tree limit [] left (Nat.lt_of_not_le hfits)
        rw [← readDatum, hread] at hdeep
        cases hdeep
    · rw [readDatum_closing] at hread
      cases hread
    · by_cases hfits : openDepth branches ≤ limit
      · rw [readDatum, readFrom_openTokens branches [] hfits] at hread
        cases hread
      · have hdeep := readFrom_openTokens_deep branches [] (Nat.lt_of_not_le hfits)
        rw [← readDatum, hread] at hdeep
        cases hdeep
  · rintro ⟨tree, rfl, hfits, rfl⟩
    exact readDatum_tokens tree rest hfits

/-- Branches that are never closed are used up to the end. -/
theorem readDatum_of_no_tree (hnesting : Token.nesting 0 row ≤ limit)
    (htree : ∀ (tree : SyntaxTree) (rest : List String), row ≠ tree.tokens ++ rest)
    (hclosing : row.head? ≠ some Token.closing) :
    readDatum limit row = (.error .unexpectedEnd, []) := by
  obtain ⟨tree, left, rfl⟩ | ⟨later, rfl⟩ | ⟨branches, rfl⟩ := exists_front row
  · exact absurd rfl (htree tree left)
  · exact absurd rfl hclosing
  · rw [nesting_openTokens, Nat.zero_add] at hnesting
    exact readFrom_openTokens branches [] hnesting

theorem readForms_eq_iff {data : List Datum} : readForms limit row = ⟨data, none, []⟩ ↔
    ∃ trees, row = tokensAll trees ∧ depthAll trees ≤ limit ∧ data = datumAll trees := by
  constructor
  · intro hread
    obtain ⟨trees, rfl, hfits⟩ := exists_trees_of_readForms (congrArg Reading.failure hread)
    rw [readForms_row hfits] at hread
    exact ⟨trees, rfl, hfits, (congrArg Reading.forms hread).symm⟩
  · rintro ⟨trees, rfl, hfits, rfl⟩
    exact readForms_row hfits

end Reading

/-- A tree at the front of some tokens is nested no more deeply than all of them. -/
theorem depth_le_nesting {row rest : List String} {tree : SyntaxTree}
    (htree : row = tree.tokens ++ rest) : tree.depth ≤ Token.nesting 0 row := by
  rw [htree, nesting_tokens_append, Nat.zero_add]
  exact Nat.le_max_left ..

/-- The reader answers exactly if a tree that fits stands at the front of the tokens, as
every tree does in tokens that fit: with what the tree denotes, leaving what follows it;
there is never a second such tree.  A parenthesis at the front that closes nothing is a
failure, and it alone is used up.  In all other cases the tokens end too early, and all of
them are used up.  Forms are read to the end exactly from a row of trees, and there is
never a second such row. -/
theorem recognized_exactly (limit : Nat) (row : List String) :
    (∀ datum rest, readDatum limit row = (.ok datum, rest) ↔
        ∃ tree : SyntaxTree,
          row = tree.tokens ++ rest ∧ tree.depth ≤ limit ∧ datum = tree.datum) ∧
      (Token.nesting 0 row ≤ limit → ∀ (tree : SyntaxTree) (rest : List String),
        row = tree.tokens ++ rest → tree.depth ≤ limit) ∧
      (∀ (tree other : SyntaxTree) (rest left : List String),
        row = tree.tokens ++ rest → row = other.tokens ++ left → tree = other ∧ rest = left) ∧
      (∀ later, row = Token.closing :: later →
        readDatum limit row = (.error .unexpectedClose, later)) ∧
      ((∀ (tree : SyntaxTree) (rest : List String), row ≠ tree.tokens ++ rest) →
        row.head? ≠ some Token.closing → Token.nesting 0 row ≤ limit →
          readDatum limit row = (.error .unexpectedEnd, [])) ∧
      (∀ data, readForms limit row = ⟨data, none, []⟩ ↔
        ∃ trees, row = tokensAll trees ∧ depthAll trees ≤ limit ∧ data = datumAll trees) ∧
      (∀ trees others, row = tokensAll trees → row = tokensAll others → trees = others) ∧
      Failure.unexpectedClose.report = "LispSyntaxError: unexpected ')'" ∧
      Failure.unexpectedEnd.report = "LispSyntaxError: unexpected EOF while reading" := by
  refine ⟨fun _ _ => readDatum_eq_ok_iff,
    fun hnesting tree rest htree => Nat.le_trans (depth_le_nesting htree) hnesting,
    fun tree other rest left htree hother => ?_, ?_, fun htree hclosing hnesting => ?_,
    fun _ => readForms_eq_iff, fun trees others htrees hothers => ?_, rfl, rfl⟩
  · exact tokens_append_inj tree other rest left (htree.symm.trans hother)
  · rintro later rfl
    exact readDatum_closing limit later
  · exact readDatum_of_no_tree hnesting htree hclosing
  · exact tokensAll_inj (htrees.symm.trans hothers)

/-- A form that holds a list and has a stray parenthesis behind it, and a form that is
never closed. -/
theorem recognized_exactly_nested :
    let tree : SyntaxTree := .branch [.leaf ⟨"f", by decide, by decide⟩, .branch []]
    readDatum 3 ["(", "f", "(", ")", ")", ")"] = (.ok tree.datum, [")"]) ∧
      Token.nesting 0 ["(", "(", "f", ")"] ≤ 3 ∧
      (∀ (tree : SyntaxTree) (rest : List String), ["(", "(", "f", ")"] ≠ tree.tokens ++ rest) ∧
      readDatum 3 ["(", "(", "f", ")"] = (.error .unexpectedEnd, []) := by
  have hnesting : Token.nesting 0 ["(", "(", "f", ")"] ≤ 3 := by decide
  obtain ⟨hread, hfits, -, -, hnone, -⟩ := recognized_exactly 3 ["(", "(", "f", ")"]
  have htree (tree : SyntaxTree) (rest : List String) :
      ["(", "(", "f", ")"] ≠ tree.tokens ++ rest := by
    intro hrow
    cases (hread tree.datum rest).mpr ⟨tree, hrow, hfits hnesting tree rest hrow, rfl⟩
  refine ⟨?_, hnesting, htree, hnone htree (by decide) hnesting⟩
  exact ((recognized_exactly 3 _).1 _ _).mpr ⟨_, rfl, by decide, rfl⟩

end SyntaxTree

end Lisplet
