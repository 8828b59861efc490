import Lisplet.Datum.Reading

/-!
# Syntax trees

A text that reads without a failure is a row of trees, with words at the leaves and a
pair of parentheses around the children of a branch.  Every other text goes on behind
such a row with a parenthesis that closes nothing, or with branches that are never
closed.  This file proves what the reader makes of each of the three, for any room and
in front of any later tokens.
-/

namespace Lisplet

/-- A token that is no parenthesis. -/
structure Token.Word where
  text : String
  ne_opening : text ≠ Token.opening
  ne_closing : text ≠ Token.closing

inductive SyntaxTree where
  | leaf (word : Token.Word)
  | branch (children : List SyntaxTree)

namespace SyntaxTree

mutual

def tokens : SyntaxTree → List String
  | leaf word => [word.text]
  | branch children => Token.opening :: (tokensAll children ++ [Token.closing])

def tokensAll : List SyntaxTree → List String
  | [] => []
  | tree :: trees => tree.tokens ++ tokensAll trees

end

mutual

def datum : SyntaxTree → Datum
  | leaf word => Datum.ofToken word.text
  | branch children => .list (datumAll children)

def datumAll : List SyntaxTree → List Datum
  | [] => []
  | tree :: trees => tree.datum :: datumAll trees

end

mutual

/-- The room that reading a tree takes. -/
def depth : SyntaxTree → Nat
  | leaf _ => 1
  | branch children => depthAll children + 1

def depthAll : List SyntaxTree → Nat
  | [] => 0
  | tree :: trees => max tree.depth (depthAll trees)

end

/-! ## Reading inside an open list -/

/-- The steps of the reader, one for each kind of token. -/
@[simp]
theorem readFrom_opening (room : Nat) (opened : OpenLists) (rest : List String) :
    readFrom (room + 1) opened (Token.opening :: rest) = readFrom room ([] :: opened) rest := by
  rw [readFrom.eq_def]
  simp only [if_neg (show Token.opening ≠ Token.closing by decide), if_pos]

@[simp]
theorem readFrom_closing (room : Nat) (items outer : List Datum) (opened : OpenLists)
    (rest : List String) :
    readFrom room (items :: outer :: opened) (Token.closing :: rest) =
      readFrom (room + 1) ((.list items.reverse :: outer) :: opened) rest := by
  rw [readFrom.eq_def]
  simp only [if_pos]

@[simp]
theorem readFrom_word (room : Nat) (items : List Datum) (opened : OpenLists)
    (word : Token.Word) (rest : List String) :
    readFrom (room + 1) (items :: opened) (word.text :: rest) =
      readFrom (room + 1) ((Datum.ofToken word.text :: items) :: opened) rest := by
  rw [readFrom.eq_def]
  simp only [if_neg word.ne_closing, if_neg word.ne_opening]

/-- Without room no element can be read. -/
theorem readFrom_zero (opened : OpenLists) {token : String} (rest : List String)
    (htoken : token ≠ Token.closing) :
    (readFrom 0 opened (token :: rest)).1 = .error .depthExceeded := by
  rw [readFrom.eq_def]
  simp only [if_neg htoken]

mutual

/-- A tree that fits becomes the next element of the innermost open list. -/
theorem readFrom_tokens : (tree : SyntaxTree) → (room : Nat) → (items : List Datum) →
    (opened : OpenLists) → (rest : List String) → tree.depth ≤ room →
    readFrom room (items :: opened) (tree.tokens ++ rest) =
      readFrom room ((tree.datum :: items) :: opened) rest
  | leaf word, room + 1, items, opened, rest, _ => by
    rw [tokens, datum]
    exact readFrom_word room items opened word rest
  | branch children, room + 1, items, opened, rest, hdepth => by
    rw [depth, Nat.add_le_add_iff_right] at hdepth
    simp only [tokens, List.cons_append, List.append_assoc]
    rw [readFrom_opening, readFrom_tokensAll children room [] _ _ hdepth]
    rw [List.nil_append, readFrom_closing]
    simp [datum]

/-- A row of trees that fit becomes the next elements of the innermost open list. -/
theorem readFrom_tokensAll : (trees : List SyntaxTree) → (room : Nat) →
    (items : List Datum) → (opened : OpenLists) → (rest : List String) →
    depthAll trees ≤ room →
    readFrom room (items :: opened) (tokensAll trees ++ rest) =
      readFrom room (((datumAll trees).reverse ++ items) :: opened) rest
  | [], _, _, _, _, _ => rfl
  | tree :: trees, room, items, opened, rest, hdepth => by
    rw [depthAll, Nat.max_le] at hdepth
    rw [tokensAll, List.append_assoc, readFrom_tokens tree room _ _ _ hdepth.1,
      readFrom_tokensAll trees room _ _ _ hdepth.2]
    simp [datumAll]

end

theorem head_tokens_ne_closing (tree : SyntaxTree) :
    ∃ token rest, tree.tokens = token :: rest ∧ token ≠ Token.closing := by
  cases tree with
  | leaf word => exact ⟨word.text, [], rfl, word.ne_closing⟩
  | branch children => exact ⟨Token.opening, _, rfl, by decide⟩

mutual

/-- A tree that does not fit ends the reading, whatever follows it. -/
theorem readFrom_tokens_deep : (tree : SyntaxTree) → (room : Nat) → (opened : OpenLists) →
    (rest : List String) → room < tree.depth →
    (readFrom room opened (tree.tokens ++ rest)).1 = .error .depthExceeded
  | tree, 0, opened, rest, _ => by
    obtain ⟨token, later, htokens, hclosing⟩ := head_tokens_ne_closing tree
    rw [htokens]
    exact readFrom_zero opened (later ++ rest) hclosing
  | leaf word, room + 1, _, _, hdepth => by
    simp [depth] at hdepth
  | branch children, room + 1, opened, rest, hdepth => by
    rw [depth, Nat.add_lt_add_iff_right] at hdepth
    simp only [tokens, List.cons_append, List.append_assoc]
    rw [readFrom_opening]
    exact readFrom_tokensAll_deep children room [] opened _ hdepth

theorem readFrom_tokensAll_deep : (trees : List SyntaxTree) → (room : Nat) →
    (items : List Datum) → (opened : OpenLists) → (rest : List String) →
    room < depthAll trees →
    (readFrom room (items :: opened) (tokensAll trees ++ rest)).1 = .error .depthExceeded
  | [], _, _, _, _, hdepth => by simp [depthAll] at hdepth
  | tree :: trees, room, items, opened, rest, hdepth => by
    rw [tokensAll, List.append_assoc]
    by_cases hfits : tree.depth ≤ room
    · rw [readFrom_tokens tree room _ _ _ hfits]
      have hlater : room < depthAll trees := by
        rw [depthAll] at hdepth
        omega
      exact readFrom_tokensAll_deep trees room _ opened rest hlater
    · exact readFrom_tokens_deep tree room _ _ (Nat.lt_of_not_le hfits)

end

/-! ## Branches that are never closed -/

/-- The tokens of open branches, outermost first, each with its complete children. -/
def openTokens : List (List SyntaxTree) → List String
  | [] => []
  | children :: inner => Token.opening :: (tokensAll children ++ openTokens inner)

def openDepth : List (List SyntaxTree) → Nat
  | [] => 0
  | children :: inner => max (depthAll children) (openDepth inner) + 1

theorem readFrom_openTokens (branches : List (List SyntaxTree)) {room : Nat}
    (opened : OpenLists) (hdepth : openDepth branches ≤ room) :
    readFrom room opened (openTokens branches) = (.error .unexpectedEnd, []) := by
  induction branches generalizing room opened with
  | nil =>
      rw [openTokens, readFrom.eq_def]
  | cons children inner ih =>
      obtain ⟨room, rfl⟩ : ∃ less, room = less + 1 := Nat.exists_eq_add_one.mpr (by
        rw [openDepth] at hdepth
        omega)
      rw [openDepth, Nat.add_le_add_iff_right, Nat.max_le] at hdepth
      rw [openTokens, readFrom_opening, readFrom_tokensAll children room _ _ _ hdepth.1]
      exact ih _ hdepth.2

theorem readFrom_openTokens_deep (branches : List (List SyntaxTree)) {room : Nat}
    (opened : OpenLists) (hdepth : room < openDepth branches) :
    (readFrom room opened (openTokens branches)).1 = .error .depthExceeded := by
  induction branches generalizing room opened with
  | nil => simp [openDepth] at hdepth
  | cons children inner ih =>
      cases room with
      | zero => exact readFrom_zero opened _ (by decide)
      | succ room =>
          rw [openDepth, Nat.add_lt_add_iff_right] at hdepth
          rw [openTokens, readFrom_opening]
          by_cases hfits : depthAll children ≤ room
          · rw [readFrom_tokensAll children room _ _ _ hfits]
            exact ih _ (by omega)
          · exact readFrom_tokensAll_deep children room _ _ _ (Nat.lt_of_not_le hfits)

/-! ## Reading forms -/

theorem readDatum_tokens (tree : SyntaxTree) {limit : Nat} (rest : List String)
    (hdepth : tree.depth ≤ limit) :
    readDatum limit (tree.tokens ++ rest) = (.ok tree.datum, rest) := by
  obtain ⟨room, rfl⟩ : ∃ less, limit = less + 1 := Nat.exists_eq_add_one.mpr (by
    cases tree <;> simp only [depth] at hdepth <;> omega)
  rw [readDatum]
  cases tree with
  | leaf word =>
      rw [tokens, List.singleton_append, readFrom.eq_def]
      simp only [if_neg word.ne_closing, if_neg word.ne_opening, datum]
  | branch children =>
      rw [depth, Nat.add_le_add_iff_right] at hdepth
      simp only [tokens, List.cons_append, List.append_assoc]
      rw [readFrom_opening, readFrom_tokensAll children room _ _ _ hdepth, List.nil_append,
        readFrom.eq_def]
      simp [datum]

@[simp]
theorem readDatum_closing (limit : Nat) (later : List String) :
    readDatum limit (Token.closing :: later) = (.error .unexpectedClose, later) := by
  rw [readDatum, readFrom.eq_def]
  simp only [if_pos]

@[simp]
theorem readForms_nil (limit : Nat) : readForms limit [] = ⟨[], none, []⟩ := by
  rw [readForms, if_pos (by rfl)]

theorem readForms_of_ok {limit : Nat} {tokens rest : List String} {form : Datum}
    (h : readDatum limit tokens = (.ok form, rest)) :
    readForms limit tokens =
      { readForms limit rest with forms := form :: (readForms limit rest).forms } := by
  have hne : ¬ tokens.isEmpty := by
    intro hempty
    have := length_readDatum_lt h
    simp [List.isEmpty_iff.mp hempty] at this
  rw [readForms, if_neg hne]
  split
  · next failure left step => simp [h] at step
  · next datum left step =>
      obtain ⟨hform, hrest⟩ := Prod.mk.inj (h.symm.trans step)
      cases hform
      subst hrest
      rfl

theorem readForms_of_error {limit : Nat} {tokens rest : List String} {failure : Failure}
    (hne : tokens ≠ []) (h : readDatum limit tokens = (.error failure, rest)) :
    readForms limit tokens = ⟨[], some failure, rest⟩ := by
  rw [readForms, if_neg (by simpa using hne)]
  split
  · next other left step =>
      obtain ⟨hfailure, hrest⟩ := Prod.mk.inj (h.symm.trans step)
      cases hfailure
      subst hrest
      rfl
  · next datum left step => simp [h] at step

theorem readForms_tokensAll (trees : List SyntaxTree) {limit : Nat} (rest : List String)
    (hdepth : depthAll trees ≤ limit) :
    readForms limit (tokensAll trees ++ rest) =
      { readForms limit rest with forms := datumAll trees ++ (readForms limit rest).forms } := by
  induction trees with
  | nil => rfl
  | cons tree trees ih =>
      rw [depthAll, Nat.max_le] at hdepth
      rw [tokensAll, List.append_assoc, readForms_of_ok (readDatum_tokens tree _ hdepth.1),
        ih hdepth.2]
      rfl

/-- A row of trees that fits is read to the end. -/
theorem readForms_row {trees : List SyntaxTree} {limit : Nat} (hdepth : depthAll trees ≤ limit) :
    readForms limit (tokensAll trees) = ⟨datumAll trees, none, []⟩ := by
  have hread := readForms_tokensAll trees [] hdepth
  rw [readForms_nil, List.append_nil, List.append_nil] at hread
  exact hread

/-- A row of trees that does not fit is read up to the first tree that is too deep. -/
theorem readForms_tokensAll_deep (trees : List SyntaxTree) {limit : Nat} (rest : List String)
    (hdepth : limit < depthAll trees) :
    (readForms limit (tokensAll trees ++ rest)).failure = some .depthExceeded ∧
      (readForms limit (tokensAll trees ++ rest)).forms <+: datumAll trees := by
  induction trees with
  | nil => simp [depthAll] at hdepth
  | cons tree trees ih =>
      rw [tokensAll, List.append_assoc]
      by_cases hfits : tree.depth ≤ limit
      · rw [readForms_of_ok (readDatum_tokens tree _ hfits), datumAll]
        have hlater : limit < depthAll trees := by
          rw [depthAll] at hdepth
          omega
        exact ⟨(ih hlater).1, List.cons_prefix_cons.mpr ⟨rfl, (ih hlater).2⟩⟩
      · have hdeep := readFrom_tokens_deep tree limit [] (tokensAll trees ++ rest)
          (Nat.lt_of_not_le hfits)
        have hne : tree.tokens ++ (tokensAll trees ++ rest) ≠ [] := by
          obtain ⟨token, later, htokens, -⟩ := head_tokens_ne_closing tree
          simp [htokens]
        rw [readForms_of_error hne (Prod.ext hdeep rfl)]
        exact ⟨rfl, List.nil_prefix⟩

end SyntaxTree

/-! ## Every row of tokens -/

/-- How tokens go on behind a row of complete trees. -/
inductive Remnant where
  | nothing
  | stray (later : List String)
  | unclosed (children : List SyntaxTree) (inner : List (List SyntaxTree))

namespace Remnant

open SyntaxTree

def tokens : Remnant → List String
  | nothing => []
  | stray later => Token.closing :: later
  | unclosed children inner => openTokens (children :: inner)

def depth : Remnant → Nat
  | nothing | stray _ => 0
  | unclosed children inner => openDepth (children :: inner)

def failure? : Remnant → Option Failure
  | nothing => none
  | stray _ => some .unexpectedClose
  | unclosed .. => some .unexpectedEnd

theorem readForms_tokens (remnant : Remnant) {limit : Nat} (hdepth : remnant.depth ≤ limit) :
    (readForms limit remnant.tokens).failure = remnant.failure? ∧
      (readForms limit remnant.tokens).forms = [] := by
  cases remnant with
  | nothing => simp [tokens, failure?, readForms_nil]
  | stray later =>
      rw [tokens, readForms_of_error (List.cons_ne_nil _ _) (readDatum_closing limit later)]
      exact ⟨rfl, rfl⟩
  | unclosed children inner =>
      have hread := readFrom_openTokens (children :: inner) [] hdepth
      rw [tokens, readForms_of_error (by simp [openTokens]) hread]
      exact ⟨rfl, rfl⟩

theorem readForms_tokens_deep (remnant : Remnant) {limit : Nat}
    (hdepth : limit < remnant.depth) :
    (readForms limit remnant.tokens).failure = some .depthExceeded := by
  cases remnant with
  | nothing | stray => simp [depth] at hdepth
  | unclosed children inner =>
      have hdeep := readFrom_openTokens_deep (children :: inner) [] hdepth
      rw [tokens, readForms_of_error (by simp [openTokens]) (Prod.ext hdeep rfl)]

/-- The reading of a whole row of tokens fails as its remnant tells, unless something in
it is too deep. -/
theorem failure_readForms (trees : List SyntaxTree) (remnant : Remnant) (limit : Nat) :
    (readForms limit (tokensAll trees ++ remnant.tokens)).failure =
      if depthAll trees ≤ limit ∧ remnant.depth ≤ limit then remnant.failure?
      else some .depthExceeded := by
  split
  · next hdepth =>
      rw [readForms_tokensAll trees _ hdepth.1]
      exact (readForms_tokens remnant hdepth.2).1
  · next hdepth =>
      by_cases htrees : depthAll trees ≤ limit
      · rw [readForms_tokensAll trees _ htrees]
        exact readForms_tokens_deep remnant (by omega)
      · exact (readForms_tokensAll_deep trees _ (Nat.lt_of_not_le htrees)).1

/-- Every row of tokens is a row of trees and a remnant. -/
theorem exists_eq_tokensAll_append (row : List String) :
    ∃ trees remnant, row = tokensAll trees ++ tokens remnant := by
  induction hlength : row.length using Nat.strongRecOn generalizing row with
  | _ length ih =>
      cases row with
      | nil => exact ⟨[], nothing, rfl⟩
      | cons token row =>
          by_cases hclosing : token = Token.closing
          · exact ⟨[], stray row, by rw [hclosing]; rfl⟩
          obtain ⟨trees, remnant, hrow⟩ := ih row.length (by simp [← hlength]) row rfl
          by_cases hopening : token = Token.opening
          · -- the trees behind an opening parenthesis are the children of its branch
            subst hopening
            cases remnant with
            | nothing => exact ⟨[], unclosed trees [], by rw [hrow]; rfl⟩
            | unclosed children inner =>
                exact ⟨[], unclosed trees (children :: inner), by rw [hrow]; rfl⟩
            | stray later =>
                obtain ⟨siblings, remnant, hlater⟩ := ih later.length (by
                  simp [← hlength, hrow, tokens]
                  omega) later rfl
                refine ⟨.branch trees :: siblings, remnant, ?_⟩
                rw [hrow, tokens, hlater]
                simp [tokensAll, SyntaxTree.tokens]
          · refine ⟨.leaf ⟨token, hopening, hclosing⟩ :: trees, remnant, ?_⟩
            rw [hrow]
            rfl

end Remnant

/-- Tokens that are read to the end are a row of trees that fits. -/
theorem SyntaxTree.exists_trees_of_readForms {limit : Nat} {row : List String}
    (hread : (readForms limit row).failure = none) :
    ∃ trees, row = tokensAll trees ∧ depthAll trees ≤ limit := by
  obtain ⟨trees, remnant, rfl⟩ := Remnant.exists_eq_tokensAll_append row
  rw [Remnant.failure_readForms] at hread
  split at hread
  · next hdepth =>
      cases remnant with
      | nothing => exact ⟨trees, List.append_nil _, hdepth.1⟩
      | stray | unclosed => cases hread
  · cases hread

/-- Behind tokens that are read without a failure the reader starts anew. -/
theorem readForms_append {limit : Nat} {front : List String} (back : List String)
    (hfront : (readForms limit front).failure = none) :
    readForms limit (front ++ back) =
      { readForms limit back with
        forms := (readForms limit front).forms ++ (readForms limit back).forms } := by
  obtain ⟨trees, rfl, hdepth⟩ := SyntaxTree.exists_trees_of_readForms hfront
  rw [SyntaxTree.readForms_tokensAll trees back hdepth, SyntaxTree.readForms_row hdepth]

/-- What can be wrong with a source text. -/
theorem readSource_failure_cases {limit : Nat} {source : Option String} {failure : Failure}
    (hread : (readSource limit source).failure = some failure) :
    failure = .noCode ∨ failure = .unexpectedEnd ∨ failure = .unexpectedClose ∨
      failure = .depthExceeded := by
  cases source with
  | none => exact .inl (Option.some.inj hread).symm
  | some text =>
      obtain ⟨trees, remnant, hrow⟩ :=
        Remnant.exists_eq_tokensAll_append (Token.split text.toList)
      rw [readSource, hrow, Remnant.failure_readForms] at hread
      split at hread
      · cases remnant with
        | nothing => cases hread
        | stray => exact .inr (.inr (.inl (Option.some.inj hread).symm))
        | unclosed => exact .inr (.inl (Option.some.inj hread).symm)
      · exact .inr (.inr (.inr (Option.some.inj hread).symm))

/-! ## Nesting -/

/-- How deeply tokens are nested when they start inside `depth` lists: a list counts for
itself, and a word counts as a list would. -/
def Token.nesting (depth : Nat) : List String → Nat
  | [] => depth
  | token :: tokens =>
    if token = Token.opening then nesting (depth + 1) tokens
    else if token = Token.closing then max depth (nesting (depth - 1) tokens)
    else max (depth + 1) (nesting depth tokens)

namespace SyntaxTree

open Token

theorem le_nesting (depth : Nat) (tokens : List String) : depth ≤ nesting depth tokens := by
  induction tokens generalizing depth with
  | nil => exact Nat.le_refl _
  | cons token tokens ih =>
      have hinner := ih (depth + 1)
      rw [nesting]
      split
      · omega
      · split <;> omega

mutual

theorem nesting_tokens_append : (tree : SyntaxTree) → (depth : Nat) → (rest : List String) →
    nesting depth (tree.tokens ++ rest) = max (depth + tree.depth) (nesting depth rest)
  | leaf word, depth, rest => by
    rw [tokens, List.singleton_append, nesting, if_neg word.ne_opening, if_neg word.ne_closing,
      SyntaxTree.depth]
  | branch children, depth, rest => by
    have hclosing : nesting (depth + 1) (closing :: rest) =
        max (depth + 1) (nesting depth rest) := by
      rw [nesting, if_neg (by decide), if_pos rfl, Nat.add_sub_cancel]
    simp only [tokens, List.cons_append, List.append_assoc, List.nil_append]
    rw [nesting, if_pos rfl, nesting_tokensAll_append children, hclosing, SyntaxTree.depth]
    omega

theorem nesting_tokensAll_append : (trees : List SyntaxTree) → (depth : Nat) →
    (rest : List String) →
    nesting depth (tokensAll trees ++ rest) = max (depth + depthAll trees) (nesting depth rest)
  | [], depth, rest => by
    have hle := le_nesting depth rest
    rw [tokensAll, depthAll, List.nil_append]
    omega
  | tree :: trees, depth, rest => by
    rw [tokensAll, List.append_assoc, nesting_tokens_append tree, nesting_tokensAll_append trees,
      depthAll]
    omega

end

@[simp]
theorem nesting_openTokens (branches : List (List SyntaxTree)) (depth : Nat) :
    nesting depth (openTokens branches) = depth + openDepth branches := by
  induction branches generalizing depth with
  | nil => rfl
  | cons children inner ih =>
      rw [openTokens, nesting, if_pos rfl, nesting_tokensAll_append children, ih, openDepth]
      omega

end SyntaxTree

theorem Remnant.depth_le_nesting (remnant : Remnant) :
    remnant.depth ≤ Token.nesting 0 remnant.tokens := by
  cases remnant with
  | nothing | stray => exact Nat.zero_le _
  | unclosed children inner =>
      rw [Remnant.tokens, SyntaxTree.nesting_openTokens, Nat.zero_add]
      exact Nat.le_refl _

/-- Tokens that are nested no more deeply than the limit are never too deep for the
reader. -/
theorem readForms_ne_depthExceeded {limit : Nat} {row : List String}
    (hnesting : Token.nesting 0 row ≤ limit) :
    (readForms limit row).failure ≠ some .depthExceeded := by
  obtain ⟨trees, remnant, rfl⟩ := Remnant.exists_eq_tokensAll_append row
  have hremnant := remnant.depth_le_nesting
  rw [SyntaxTree.nesting_tokensAll_append, Nat.zero_add] at hnesting
  rw [Remnant.failure_readForms, if_pos ⟨by omega, by omega⟩]
  cases remnant <;> simp [Remnant.failure?]

end Lisplet
