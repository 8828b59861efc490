import Lisplet.Proofs.Document.Tolerance

/-!
# The two readings of a text agree

A text is a row of complete trees and a remnant.  The tolerant reader turns the trees
into nodes that denote the same data, and its problems tell the three kinds of remnants
apart.  The strict reader tells them apart by its failure, so that each reading
determines how the other one ends.
-/

namespace Lisplet.Document.NodeReading

open Node

/-! ## The steps of the tolerant reader -/

theorem readFrom_opening (children : List Node) (opened : List OpenNode) {lexeme : Lexeme}
    (rest : List Lexeme) (htoken : lexeme.token = Token.opening) :
    readFrom children opened (lexeme :: rest) =
      readFrom [] (⟨lexeme.place, children⟩ :: opened) rest := by
  rw [readFrom.eq_def]
  simp only [if_pos htoken]

theorem readFrom_closing (children : List Node) (node : OpenNode) (outer : List OpenNode)
    {lexeme : Lexeme} (rest : List Lexeme) (htoken : lexeme.token = Token.closing) :
    readFrom children (node :: outer) (lexeme :: rest) =
      readFrom (.list node.place children.reverse true :: node.before) outer rest := by
  have hopening : lexeme.token ≠ Token.opening := htoken ▸ Token.closing_ne_opening
  rw [readFrom, if_neg hopening, if_pos htoken]

theorem readFrom_stray (children : List Node) {lexeme : Lexeme} (rest : List Lexeme)
    (htoken : lexeme.token = Token.closing) :
    (readFrom children [] (lexeme :: rest)).problems =
      ⟨.strayClose, lexeme.place⟩ :: (readFrom children [] rest).problems := by
  have hopening : lexeme.token ≠ Token.opening := htoken ▸ Token.closing_ne_opening
  rw [readFrom, if_neg hopening, if_pos htoken]

theorem readFrom_word (children : List Node) (opened : List OpenNode) {lexeme : Lexeme}
    (rest : List Lexeme) (word : Token.Word) (htoken : lexeme.token = word.text) :
    readFrom children opened (lexeme :: rest) =
      readFrom (.atom lexeme.place lexeme.token :: children) opened rest := by
  have hopening : lexeme.token ≠ Token.opening := htoken ▸ word.ne_opening
  have hclosing : lexeme.token ≠ Token.closing := htoken ▸ word.ne_closing
  rw [readFrom.eq_def]
  simp only [if_neg hopening, if_neg hclosing]

/-! ## Complete trees -/

mutual

/-- The lexemes of a tree become one node that denotes the same, wherever they stand. -/
theorem exists_node_of_tokens : (tree : SyntaxTree) → (lexemes : List Lexeme) →
    lexemes.map Lexeme.token = tree.tokens →
    ∃ node : Node, node.datum = tree.datum ∧ ∀ children opened rest,
      readFrom children opened (lexemes ++ rest) = readFrom (node :: children) opened rest
  | .leaf word, lexemes, htokens => by
    obtain ⟨lexeme, rfl, htoken⟩ := List.map_eq_singleton_iff.mp htokens
    refine ⟨.atom lexeme.place lexeme.token, ?_, ?_⟩
    · rw [Node.datum, htoken, SyntaxTree.datum]
    · intro children opened rest
      exact readFrom_word children opened rest word htoken
  | .branch trees, lexemes, htokens => by
    rw [SyntaxTree.tokens] at htokens
    obtain ⟨first, lexemes, rfl, hfirst, htokens⟩ := List.map_eq_cons_iff.mp htokens
    obtain ⟨inner, last, rfl, hinner, hlast⟩ := List.map_eq_append_iff.mp htokens
    obtain ⟨last, rfl, hclosing⟩ := List.map_eq_singleton_iff.mp hlast
    obtain ⟨nodes, hdata, hread⟩ := exists_nodes_of_tokens trees inner hinner
    refine ⟨.list first.place nodes true, ?_, ?_⟩
    · rw [Node.datum, datumAll_eq_map, hdata, SyntaxTree.datum]
    · intro children opened rest
      simp only [List.cons_append, List.append_assoc, List.nil_append]
      rw [readFrom_opening children opened _ hfirst, hread, readFrom_closing _ _ _ _ hclosing]
      simp

theorem exists_nodes_of_tokens : (trees : List SyntaxTree) → (lexemes : List Lexeme) →
    lexemes.map Lexeme.token = SyntaxTree.tokensAll trees →
    ∃ nodes : List Node, nodes.map Node.datum = SyntaxTree.datumAll trees ∧
      ∀ children opened rest, readFrom children opened (lexemes ++ rest) =
        readFrom (nodes.reverse ++ children) opened rest
  | [], lexemes, htokens => by
    obtain rfl := List.map_eq_nil_iff.mp htokens
    exact ⟨[], rfl, fun _ _ _ => rfl⟩
  | tree :: trees, lexemes, htokens => by
    rw [SyntaxTree.tokensAll] at htokens
    obtain ⟨front, back, rfl, hfront, hback⟩ := List.map_eq_append_iff.mp htokens
    obtain ⟨node, hdatum, hnode⟩ := exists_node_of_tokens tree front hfront
    obtain ⟨nodes, hdata, hnodes⟩ := exists_nodes_of_tokens trees back hback
    refine ⟨node :: nodes, ?_, ?_⟩
    · rw [List.map_cons, hdatum, hdata, SyntaxTree.datumAll]
    · intro children opened rest
      rw [List.append_assoc, hnode, hnodes]
      simp

end

/-- Branches that are never closed stay open to the end. -/
theorem exists_opened_of_openTokens (branches : List (List SyntaxTree)) (children : List Node)
    (opened : List OpenNode) (lexemes : List Lexeme)
    (htokens : lexemes.map Lexeme.token = SyntaxTree.openTokens branches) :
    ∃ (last : List Node) (inner : List OpenNode), inner.length = branches.length ∧
      readFrom children opened lexemes = readFrom last (inner ++ opened) [] := by
  induction branches generalizing children opened lexemes with
  | nil =>
      obtain rfl := List.map_eq_nil_iff.mp htokens
      exact ⟨children, [], rfl, rfl⟩
  | cons trees branches ih =>
      rw [SyntaxTree.openTokens] at htokens
      obtain ⟨first, lexemes, rfl, hfirst, htokens⟩ := List.map_eq_cons_iff.mp htokens
      obtain ⟨front, back, rfl, hfront, hback⟩ := List.map_eq_append_iff.mp htokens
      obtain ⟨nodes, -, hnodes⟩ := exists_nodes_of_tokens trees front hfront
      obtain ⟨last, inner, hlength, hread⟩ :=
        ih (nodes.reverse ++ []) (⟨first.place, children⟩ :: opened) back hback
      refine ⟨last, inner ++ [⟨first.place, children⟩], by simp [hlength], ?_⟩
      rw [readFrom_opening children opened _ hfirst, hnodes, hread]
      simp

/-! ## Remnants -/

/-- What the tolerant reader makes of what follows the complete trees. -/
def Reports (reading : NodeReading) (children : List Node) : Remnant → Prop
  | .nothing => reading.problems = [] ∧ reading.nodes = children.reverse
  | .stray _ => ∃ problem ∈ reading.problems, problem.cause = .strayClose
  | .unclosed .. =>
      reading.problems ≠ [] ∧ ∀ problem ∈ reading.problems, problem.cause = .unclosed

theorem reports_remnant (children : List Node) (remnant : Remnant) (lexemes : List Lexeme)
    (htokens : lexemes.map Lexeme.token = remnant.tokens) :
    (readFrom children [] lexemes).Reports children remnant := by
  cases remnant with
  | nothing =>
      obtain rfl := List.map_eq_nil_iff.mp htokens
      exact ⟨rfl, rfl⟩
  | stray later =>
      obtain ⟨lexeme, lexemes, rfl, hclosing, -⟩ := List.map_eq_cons_iff.mp htokens
      rw [Reports, readFrom_stray children lexemes hclosing]
      exact ⟨_, List.mem_cons_self .., rfl⟩
  | unclosed trees branches =>
      obtain ⟨last, inner, hlength, hread⟩ :=
        exists_opened_of_openTokens (trees :: branches) children [] lexemes htokens
      have hinner : inner ≠ [] := by
        rintro rfl
        simp at hlength
      rw [Reports, hread, readFrom]
      exact ⟨by simpa using hinner, by simp⟩

/-- The outline of a document: complete trees, a remnant, and what both readers make of
them. -/
theorem exists_outline (cs : List Char) :
    ∃ (trees : List SyntaxTree) (remnant : Remnant) (nodes : List Node),
      Token.split cs = SyntaxTree.tokensAll trees ++ remnant.tokens ∧
      nodes.map Node.datum = SyntaxTree.datumAll trees ∧
      (ofDocument cs).Reports nodes.reverse remnant := by
  obtain ⟨trees, remnant, hsplit⟩ := Remnant.exists_eq_tokensAll_append (Token.split cs)
  have hscan : (Lexeme.scan cs).map Lexeme.token =
      SyntaxTree.tokensAll trees ++ remnant.tokens := (map_token_scan cs).trans hsplit
  obtain ⟨front, back, hlexemes, hfront, hback⟩ := List.map_eq_append_iff.mp hscan
  obtain ⟨nodes, hdata, hnodes⟩ := exists_nodes_of_tokens trees front hfront
  refine ⟨trees, remnant, nodes, hsplit, hdata, ?_⟩
  rw [ofDocument, hlexemes, hnodes, List.append_nil]
  exact reports_remnant nodes.reverse remnant back hback

/-! ## Agreement -/

/-- How a tolerant reading goes together with a strict one. -/
structure Agrees (tolerant : NodeReading) (strict : Reading) : Prop where
  succeeds_iff : tolerant.problems = [] ↔ strict.failure = none
  forms : tolerant.problems = [] → tolerant.nodes.map Node.datum = strict.forms
  closed : tolerant.problems = [] → openPlacesAll tolerant.nodes = []
  stray_iff : strict.failure = some .unexpectedClose ↔
    ∃ problem ∈ tolerant.problems, problem.cause = .strayClose
  unclosed_iff : strict.failure = some .unexpectedEnd ↔
    (∀ problem ∈ tolerant.problems, problem.cause ≠ .strayClose) ∧
      openPlacesAll tolerant.nodes ≠ []

/-- A reading accounts for all tokens: the nodes are made of the paired ones, every
other one is a problem, and so is every list that is never closed. -/
structure Accounts (reading : NodeReading) (tokens : List String) : Prop where
  kept : tokensAll reading.nodes = withoutStrays 0 tokens
  strays : reading.problems.countP (·.cause = .strayClose) + (withoutStrays 0 tokens).length =
    tokens.length
  unclosed : reading.problems.countP (·.cause = .unclosed) = (openPlacesAll reading.nodes).length

theorem filter_unclosed_ofDocument (cs : List Char) :
    (ofDocument cs).problems.filter (·.cause = .unclosed) =
      (openPlacesAll (ofDocument cs).nodes).map (⟨.unclosed, ·⟩) :=
  filter_unclosed_readFrom [] [] _ ⟨by simp, by simp⟩

theorem accounts_ofDocument (cs : List Char) : (ofDocument cs).Accounts (Token.split cs) where
  kept := by
    rw [ofDocument, tokensAll_readFrom, map_token_scan]
    rfl
  strays := by
    have hcount := countP_strayClose_readFrom [] [] (Lexeme.scan cs)
    rw [map_token_scan, ← List.length_map (f := Lexeme.token), map_token_scan] at hcount
    exact hcount
  unclosed := by
    rw [List.countP_eq_length_filter, filter_unclosed_ofDocument, List.length_map]

/-- The strict reading of a text whose outline fits the limit. -/
theorem agrees_of_outline {limit : Nat} {cs : List Char} {trees : List SyntaxTree}
    {remnant : Remnant} {nodes : List Node}
    (hsplit : Token.split cs = SyntaxTree.tokensAll trees ++ remnant.tokens)
    (hdata : nodes.map Node.datum = SyntaxTree.datumAll trees)
    (hreports : (ofDocument cs).Reports nodes.reverse remnant)
    (hdepth : SyntaxTree.depthAll trees ≤ limit ∧ remnant.depth ≤ limit) :
    (ofDocument cs).Agrees (readForms limit (Token.split cs)) := by
  have hopen := filter_unclosed_ofDocument cs
  have hfailure := Remnant.failure_readForms trees remnant limit
  rw [if_pos hdepth, ← hsplit] at hfailure
  have hforms : (readForms limit (Token.split cs)).forms = SyntaxTree.datumAll trees := by
    rw [hsplit, SyntaxTree.readForms_tokensAll trees _ hdepth.1]
    simp [(Remnant.readForms_tokens remnant hdepth.2).2]
  cases remnant with
  | nothing =>
      obtain ⟨hproblems, hnodes⟩ := hreports
      rw [hproblems, List.filter_nil] at hopen
      have hclosed : openPlacesAll (ofDocument cs).nodes = [] :=
        List.map_eq_nil_iff.mp hopen.symm
      constructor
      · simp [hfailure, Remnant.failure?, hproblems]
      · simp [hnodes, hdata, hforms]
      · intro _
        exact hclosed
      · simp [hfailure, Remnant.failure?, hproblems]
      · simp only [hclosed, ne_eq, not_true, and_false, iff_false]
        simp [hfailure, Remnant.failure?]
  | stray later =>
      obtain ⟨problem, hmem, hcause⟩ := hreports
      have hproblems : (ofDocument cs).problems ≠ [] := List.ne_nil_of_mem hmem
      constructor
      · simp [hfailure, Remnant.failure?, hproblems]
      · intro hnil
        exact absurd hnil hproblems
      · intro hnil
        exact absurd hnil hproblems
      · simpa [hfailure, Remnant.failure?] using ⟨problem, hmem, hcause⟩
      · simp only [hfailure, Remnant.failure?, Option.some.injEq, reduceCtorEq, false_iff]
        intro h
        exact h.1 problem hmem hcause
  | unclosed children inner =>
      obtain ⟨hproblems, hcauses⟩ := hreports
      have hnostray : ∀ problem ∈ (ofDocument cs).problems, problem.cause ≠ .strayClose := by
        intro problem hmem
        simp [hcauses problem hmem]
      have hunclosed : openPlacesAll (ofDocument cs).nodes ≠ [] := by
        rw [List.filter_eq_self.mpr (by simpa using hcauses)] at hopen
        intro hnil
        exact hproblems (by simp [hopen, hnil])
      constructor
      · simp [hfailure, Remnant.failure?, hproblems]
      · intro hnil
        exact absurd hnil hproblems
      · intro hnil
        exact absurd hnil hproblems
      · simpa [hfailure, Remnant.failure?] using hnostray
      · simpa [hfailure, Remnant.failure?] using ⟨hnostray, hunclosed⟩

/-- The tolerant and the strict reading of any text.  They agree unless the strict one
runs out of room, which it does not when the nesting of the text fits the limit; and the
tolerant one accounts for every token in any case. -/
theorem agrees_and_accounts (limit : Nat) (text : String) :
    (Token.nesting 0 (Token.split text.toList) ≤ limit →
        (readSource limit (some text)).failure ≠ some .depthExceeded) ∧
      ((readSource limit (some text)).failure ≠ some .depthExceeded →
        (ofDocument text.toList).Agrees (readSource limit (some text))) ∧
      (ofDocument text.toList).Accounts (Token.split text.toList) := by
  refine ⟨readForms_ne_depthExceeded, ?_, accounts_ofDocument _⟩
  intro hfits
  obtain ⟨trees, remnant, nodes, hsplit, hdata, hreports⟩ := exists_outline text.toList
  by_cases hdepth : SyntaxTree.depthAll trees ≤ limit ∧ remnant.depth ≤ limit
  · exact agrees_of_outline hsplit hdata hreports hdepth
  · apply absurd _ hfits
    rw [readSource, hsplit, Remnant.failure_readForms, if_neg hdepth]

/-- The two readings of a text with a stray parenthesis and a list that is never
closed. -/
theorem agrees_and_accounts_faulty :
    Token.nesting 0 (Token.split "(f (x)) ) (y".toList) ≤ 1000 ∧
      (ofDocument "(f (x)) ) (y".toList).Agrees (readSource 1000 (some "(f (x)) ) (y")) ∧
      (ofDocument "(f (x)) ) (y".toList).Accounts
        ["(", "f", "(", "x", ")", ")", ")", "(", "y"] := by
  have hnesting : Token.nesting 0 (Token.split "(f (x)) ) (y".toList) ≤ 1000 := by decide
  obtain ⟨hfits, hagrees, haccounts⟩ := agrees_and_accounts 1000 "(f (x)) ) (y"
  exact ⟨hnesting, hagrees (hfits hnesting), haccounts⟩

/-! ## Where the strict reader runs out of room -/

@[simp]
theorem split_replicate_opening (n : Nat) :
    Token.split (List.replicate n '(') = SyntaxTree.openTokens (List.replicate n []) := by
  induction n with
  | zero => rfl
  | succ n ih =>
      rw [List.replicate_succ, List.replicate_succ, Token.split_opening, ih]
      rfl

@[simp]
theorem openDepth_replicate_nil (n : Nat) :
    SyntaxTree.openDepth (List.replicate n []) = n := by
  induction n with
  | zero => rfl
  | succ n ih =>
      rw [List.replicate_succ, SyntaxTree.openDepth, ih]
      simp [SyntaxTree.depthAll]

/-- More opening parentheses than there is room for are too deep for the strict reader,
while the tolerant one finds lists that are never closed and nothing stray. -/
theorem readings_of_openings {limit n : Nat} (hdeep : limit < n) :
    (readSource limit (some (String.ofList (List.replicate n '(')))).failure =
        some .depthExceeded ∧
      (∀ problem ∈ (ofDocument (List.replicate n '(')).problems,
        problem.cause ≠ .strayClose) ∧
      openPlacesAll (ofDocument (List.replicate n '(')).nodes ≠ [] := by
  obtain ⟨n, rfl⟩ : ∃ less, n = less + 1 := Nat.exists_eq_add_one.mpr (by omega)
  have hsplit : Token.split (List.replicate (n + 1) '(') =
      (Remnant.unclosed [] (List.replicate n [])).tokens := by
    rw [split_replicate_opening, List.replicate_succ]
    rfl
  obtain ⟨hproblems, hcauses⟩ := reports_remnant [] (.unclosed [] (List.replicate n []))
    (Lexeme.scan (List.replicate (n + 1) '(')) ((map_token_scan _).trans hsplit)
  refine ⟨?_, ?_, ?_⟩
  · rw [readSource, String.toList_ofList, hsplit]
    apply Remnant.readForms_tokens_deep
    rw [Remnant.depth, ← List.replicate_succ, openDepth_replicate_nil]
    exact hdeep
  · intro problem hmem
    simp [hcauses problem hmem]
  · intro hnil
    apply hproblems
    have hopen := filter_unclosed_ofDocument (List.replicate (n + 1) '(')
    rw [hnil, List.map_nil, ofDocument, List.filter_eq_self.mpr (by simpa using hcauses)] at hopen
    exact hopen

/-- So a list that is never closed does not always make the strict reader miss the end. -/
theorem not_unexpectedEnd_iff_of_deep_text :
    ¬ ((readSource 1000 (some (String.ofList (List.replicate 3000 '(')))).failure =
          some .unexpectedEnd ↔
        (∀ problem ∈ (ofDocument (List.replicate 3000 '(')).problems,
            problem.cause ≠ .strayClose) ∧
          openPlacesAll (ofDocument (List.replicate 3000 '(')).nodes ≠ []) := by
  obtain ⟨hfailure, hreport⟩ := readings_of_openings (show 1000 < 3000 by decide)
  rw [hfailure]
  intro hiff
  simpa using hiff.mpr hreport

end Lisplet.Document.NodeReading
