import Lisplet.Console.Dialogue
import Lisplet.Proofs.Reading.Splitting
import Lisplet.Proofs.Reading.SyntaxTree

/-!
# Balance and syntax

Lines are collected by counting the parentheses among the characters of a text, and the
text is then read by its tokens.  The two views agree: the balance is zero exactly for a
row of complete trees, negative when a parenthesis closes nothing, and positive when
lists are left open.
-/

namespace Lisplet

namespace Token

/-- The balance of tokens behind so many open parentheses. -/
def balanceFrom (opened : Nat) : List String → Int
  | [] => opened
  | token :: tokens =>
    if token = opening then balanceFrom (opened + 1) tokens
    else if token = closing then
      match opened with
      | 0 => -1
      | opened + 1 => balanceFrom opened tokens
    else balanceFrom opened tokens

@[simp]
theorem balanceFrom_opening (opened : Nat) (tokens : List String) :
    balanceFrom opened (opening :: tokens) = balanceFrom (opened + 1) tokens := by
  rw [balanceFrom.eq_def]
  simp only [if_pos]

@[simp]
theorem balanceFrom_stray (tokens : List String) : balanceFrom 0 (closing :: tokens) = -1 := by
  rw [balanceFrom.eq_def]
  simp only [if_neg closing_ne_opening, if_pos]

@[simp]
theorem balanceFrom_closing (opened : Nat) (tokens : List String) :
    balanceFrom (opened + 1) (closing :: tokens) = balanceFrom opened tokens := by
  rw [balanceFrom.eq_def]
  simp only [if_neg closing_ne_opening, if_pos]

theorem balanceFrom_word {token : String} (hopening : token ≠ opening)
    (hclosing : token ≠ closing) (opened : Nat) (tokens : List String) :
    balanceFrom opened (token :: tokens) = balanceFrom opened tokens := by
  rw [balanceFrom.eq_def]
  simp only [if_neg hopening, if_neg hclosing]

/-- Nothing mends a parenthesis that closes nothing. -/
theorem balanceFrom_append_of_neg (tokens later : List String) {opened : Nat}
    (hneg : balanceFrom opened tokens < 0) : balanceFrom opened (tokens ++ later) < 0 := by
  induction tokens generalizing opened with
  | nil => exact absurd hneg (by simp [balanceFrom])
  | cons token tokens ih =>
      rw [List.cons_append]
      by_cases hopening : token = opening
      · subst hopening
        rw [balanceFrom_opening] at hneg ⊢
        exact ih hneg
      by_cases hclosing : token = closing
      · subst hclosing
        cases opened with
        | zero => simp [balanceFrom_stray]
        | succ opened =>
            rw [balanceFrom_closing] at hneg ⊢
            exact ih hneg
      · rw [balanceFrom_word hopening hclosing] at hneg ⊢
        exact ih hneg

/-! ## Characters and tokens -/

/-- A word does not count, and neither does an empty one. -/
theorem balanceFrom_finish {word : List Char} (hword : ∀ c ∈ word, isInner c = true)
    (opened : Nat) (later : List (List Char)) :
    balanceFrom opened ((Text.words.finish word later).map String.ofList) =
      balanceFrom opened (later.map String.ofList) := by
  rw [Text.words.finish]
  split
  · rfl
  · next hne =>
      have hsolid : Solid word.reverse :=
        ⟨by simpa using hne, fun c hc => hword c (List.mem_reverse.mp hc)⟩
      rw [List.map_cons, balanceFrom_word hsolid.ne_paren.1 hsolid.ne_paren.2]

/-- The current word may have begun before the characters that are counted. -/
theorem balance_go_eq (cs : List Char) (opened : Nat) {word : List Char}
    (hword : ∀ c ∈ word, isInner c = true) :
    Console.balance.go opened cs =
      balanceFrom opened ((Text.words.go word (cs.flatMap setApart)).map String.ofList) := by
  induction cs generalizing opened word with
  | nil =>
      rw [List.flatMap_nil, Text.words.go, balanceFrom_finish hword]
      rfl
  | cons c cs ih =>
      rw [List.flatMap_cons, Console.balance.go.eq_def]
      dsimp only
      by_cases hopening : c = '('
      · subst hopening
        rw [if_pos (by rfl), go_paren word _ (.inl rfl), balanceFrom_finish hword, List.map_cons,
          ih (opened + 1) (List.forall_mem_nil _)]
        exact (balanceFrom_opening opened _).symm
      by_cases hclosing : c = ')'
      · subst hclosing
        rw [if_neg (by decide), if_pos (by rfl), go_paren word _ (.inr rfl),
          balanceFrom_finish hword, List.map_cons]
        cases opened with
        | zero => exact (balanceFrom_stray _).symm
        | succ opened =>
            exact (ih opened (List.forall_mem_nil _)).trans (balanceFrom_closing opened _).symm
      rw [if_neg (by simpa using hopening), if_neg (by simpa using hclosing)]
      cases hblank : Text.isBlank c with
      | true =>
          rw [setApart_of_blank hblank, List.singleton_append, go_blank word _ hblank,
            balanceFrom_finish hword, ih opened (List.forall_mem_nil _)]
      | false =>
          have hinner : isInner c = true := isInner_eq_true_iff.mpr ⟨hblank, hopening, hclosing⟩
          rw [setApart_of_inner hinner, List.singleton_append, go_inner word _ hblank]
          exact ih opened (List.forall_mem_cons.mpr ⟨hinner, hword⟩)

/-- The balance of a text is that of its tokens. -/
theorem balance_eq_balanceFrom_split (cs : List Char) :
    Console.balance cs = balanceFrom 0 (split cs) :=
  balance_go_eq cs 0 (List.forall_mem_nil _)

end Token

/-! ## Tokens and trees -/

namespace SyntaxTree

open Token

mutual

theorem balanceFrom_tokens : (tree : SyntaxTree) → (opened : Nat) → (rest : List String) →
    balanceFrom opened (tree.tokens ++ rest) = balanceFrom opened rest
  | leaf word, opened, rest => by
    rw [tokens, List.singleton_append, balanceFrom_word word.ne_opening word.ne_closing]
  | branch children, opened, rest => by
    simp only [tokens, List.cons_append, List.append_assoc, List.nil_append]
    rw [balanceFrom_opening, balanceFrom_tokensAll children, balanceFrom_closing]

theorem balanceFrom_tokensAll : (trees : List SyntaxTree) → (opened : Nat) →
    (rest : List String) → balanceFrom opened (tokensAll trees ++ rest) = balanceFrom opened rest
  | [], _, _ => rfl
  | tree :: trees, opened, rest => by
    rw [tokensAll, List.append_assoc, balanceFrom_tokens tree, balanceFrom_tokensAll trees]

end

@[simp]
theorem balanceFrom_openTokens (branches : List (List SyntaxTree)) (opened : Nat) :
    balanceFrom opened (openTokens branches) = opened + branches.length := by
  induction branches generalizing opened with
  | nil => simp [openTokens, balanceFrom]
  | cons children inner ih =>
      rw [openTokens, balanceFrom_opening, balanceFrom_tokensAll children, ih, List.length_cons]
      omega

end SyntaxTree

namespace Remnant

/-- The balance of a text whose trees are followed by this. -/
def balance : Remnant → Int
  | nothing => 0
  | stray _ => -1
  | unclosed _ inner => inner.length + 1

theorem balanceFrom_tokens (trees : List SyntaxTree) (remnant : Remnant) :
    Token.balanceFrom 0 (SyntaxTree.tokensAll trees ++ remnant.tokens) = remnant.balance := by
  rw [SyntaxTree.balanceFrom_tokensAll]
  cases remnant with
  | nothing => rfl
  | stray later => exact Token.balanceFrom_stray later
  | unclosed children inner =>
      rw [tokens, SyntaxTree.balanceFrom_openTokens, balance, List.length_cons]
      omega

theorem eq_nothing_of_balance {remnant : Remnant} (hbalance : remnant.balance = 0) :
    remnant = nothing := by
  cases remnant with
  | nothing => rfl
  | stray later => simp [balance] at hbalance
  | unclosed children inner =>
      rw [balance] at hbalance
      omega

end Remnant

/-! ## Cutting a row of tokens -/

/-- Tokens that are read without a failure are balanced. -/
theorem balanceFrom_of_readForms {limit : Nat} {row : List String}
    (hread : (readForms limit row).failure = none) : Token.balanceFrom 0 row = 0 := by
  obtain ⟨trees, rfl, -⟩ := SyntaxTree.exists_trees_of_readForms hread
  rw [← List.append_nil (SyntaxTree.tokensAll trees), SyntaxTree.balanceFrom_tokensAll]
  rfl

/-- A row that is read without a failure may be cut where its balance is not positive. -/
theorem failure_readForms_of_append {limit : Nat} {front back : List String}
    (hread : (readForms limit (front ++ back)).failure = none)
    (hcut : Token.balanceFrom 0 front ≤ 0) : (readForms limit front).failure = none := by
  have hwhole := balanceFrom_of_readForms hread
  -- the front has no stray parenthesis, for the whole row would have it too
  have hsound : ¬ Token.balanceFrom 0 front < 0 := fun hneg => by
    have := Token.balanceFrom_append_of_neg front back hneg
    omega
  have hzero : Token.balanceFrom 0 front = 0 := by omega
  obtain ⟨trees, remnant, rfl⟩ := Remnant.exists_eq_tokensAll_append front
  rw [Remnant.balanceFrom_tokens] at hzero
  obtain rfl := Remnant.eq_nothing_of_balance hzero
  rw [Remnant.failure_readForms]
  split
  · rfl
  · next hdeep =>
      have hnothing : Remnant.nothing.tokens = [] := rfl
      have hdepth : limit < SyntaxTree.depthAll trees :=
        Nat.lt_of_not_le fun hle => hdeep ⟨hle, Nat.zero_le _⟩
      rw [hnothing, List.append_nil,
        (SyntaxTree.readForms_tokensAll_deep trees back hdepth).1] at hread
      exact hread

end Lisplet
