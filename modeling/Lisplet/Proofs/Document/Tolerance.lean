import Lisplet.Document.Node
import Lisplet.Proofs.Document.Lexemes
import Lisplet.Proofs.Reading.SyntaxTree

/-!
# The tolerant reading and the strict one

The reader of documents never fails, and the reader of source texts stops at the first
fault.  Both see the same tokens.  Where the strict reading succeeds the tolerant one
has no problem and gives the same data; where it fails, the problems tell how.  On every
document the nodes account for all tokens but the stray parentheses, each of which is a
problem of its own.
-/

namespace Lisplet.Document

namespace Node

mutual

def datum : Node → Datum
  | atom _ token => Datum.ofToken token
  | list _ children _ => .list (datumAll children)

def datumAll : List Node → List Datum
  | [] => []
  | node :: nodes => node.datum :: datumAll nodes

end

mutual

/-- The tokens that a node is made of; a list that is never closed has no closing one. -/
def tokens : Node → List String
  | atom _ token => [token]
  | list _ children closed =>
    Token.opening :: (tokensAll children ++ if closed then [Token.closing] else [])

def tokensAll : List Node → List String
  | [] => []
  | node :: nodes => node.tokens ++ tokensAll nodes

end

mutual

/-- Where the lists start that are never closed, outer ones first. -/
def openPlaces : Node → List Place
  | atom .. => []
  | list place children closed => (if closed then [] else [place]) ++ openPlacesAll children

def openPlacesAll : List Node → List Place
  | [] => []
  | node :: nodes => node.openPlaces ++ openPlacesAll nodes

end

theorem datumAll_eq_map (nodes : List Node) : datumAll nodes = nodes.map datum := by
  induction nodes with
  | nil => rfl
  | cons node nodes ih => rw [datumAll, ih, List.map_cons]

theorem tokensAll_eq_flatMap (nodes : List Node) : tokensAll nodes = nodes.flatMap tokens := by
  induction nodes with
  | nil => rfl
  | cons node nodes ih => rw [tokensAll, ih, List.flatMap_cons]

theorem openPlacesAll_eq_flatMap (nodes : List Node) :
    openPlacesAll nodes = nodes.flatMap openPlaces := by
  induction nodes with
  | nil => rfl
  | cons node nodes ih => rw [openPlacesAll, ih, List.flatMap_cons]

end Node

namespace NodeReading

open Node

/-! ## Ending the open lists -/

/-- A node at the end of the innermost open list comes last of all, in whatever list is made
of the nodes by going through them in order. -/
theorem flatMap_endAll_cons {α : Type} {f : Node → List α}
    (hf : ∀ place children,
      f (.list place children false) = f (.list place [] false) ++ children.flatMap f)
    (node : Node) (children : List Node) (opened : List OpenNode) :
    (endAll (node :: children) opened).flatMap f =
      (endAll children opened).flatMap f ++ f node := by
  induction opened generalizing node children with
  | nil => simp [endAll]
  | cons outer opened ih =>
      rw [endAll, endAll, ih, ih (.list outer.place children.reverse false),
        hf outer.place (node :: children).reverse, hf outer.place children.reverse]
      simp

@[simp]
theorem tokensAll_endAll_cons (node : Node) (children : List Node) (opened : List OpenNode) :
    tokensAll (endAll (node :: children) opened) =
      tokensAll (endAll children opened) ++ node.tokens := by
  simp only [tokensAll_eq_flatMap]
  exact flatMap_endAll_cons (fun place children => by simp [tokens, tokensAll_eq_flatMap]) node
    children opened

@[simp]
theorem openPlacesAll_endAll_cons (node : Node) (children : List Node)
    (opened : List OpenNode) :
    openPlacesAll (endAll (node :: children) opened) =
      openPlacesAll (endAll children opened) ++ node.openPlaces := by
  simp only [openPlacesAll_eq_flatMap]
  exact flatMap_endAll_cons (fun place children => by simp [openPlaces, openPlacesAll_eq_flatMap])
    node children opened

/-- The nodes that are complete hold no open list. -/
structure Settled (children : List Node) (opened : List OpenNode) : Prop where
  children : ∀ node ∈ children, node.openPlaces = []
  before : ∀ outer ∈ opened, ∀ node ∈ outer.before, node.openPlaces = []

theorem Settled.openPlacesAll_endAll {children : List Node} {opened : List OpenNode}
    (h : Settled children opened) :
    openPlacesAll (endAll children opened) = opened.reverse.map OpenNode.place := by
  induction opened generalizing children with
  | nil =>
      rw [endAll, openPlacesAll_eq_flatMap, List.flatMap_eq_nil_iff.mpr]
      · rfl
      · intro node hnode
        exact h.children node (List.mem_reverse.mp hnode)
  | cons outer opened ih =>
      have houter : Settled outer.before opened :=
        ⟨h.before outer (List.mem_cons_self ..),
          fun other hother => h.before other (List.mem_cons_of_mem _ hother)⟩
      have hchildren : openPlacesAll children.reverse = [] := by
        rw [openPlacesAll_eq_flatMap, List.flatMap_eq_nil_iff]
        intro node hnode
        exact h.children node (List.mem_reverse.mp hnode)
      rw [endAll, openPlacesAll_endAll_cons, ih houter, openPlaces, hchildren]
      simp

/-! ## The account of all tokens -/

/-- Tokens behind `depth` open lists, without the closing parentheses that close
nothing. -/
def withoutStrays (depth : Nat) : List String → List String
  | [] => []
  | token :: tokens =>
    if token = Token.opening then token :: withoutStrays (depth + 1) tokens
    else if token = Token.closing then
      match depth with
      | 0 => withoutStrays 0 tokens
      | depth + 1 => token :: withoutStrays depth tokens
    else token :: withoutStrays depth tokens

/-- The nodes are made of all tokens but the stray ones, in order. -/
theorem tokensAll_readFrom (children : List Node) (opened : List OpenNode)
    (lexemes : List Lexeme) :
    tokensAll (readFrom children opened lexemes).nodes =
      tokensAll (endAll children opened) ++
        withoutStrays opened.length (lexemes.map Lexeme.token) := by
  fun_induction readFrom children opened lexemes with
  | case1 children opened => simp [withoutStrays]
  | case2 children opened lexeme lexemes hopening ih =>
      rw [ih, endAll, tokensAll_endAll_cons]
      simp [withoutStrays, hopening, tokens, tokensAll]
  | case3 children lexeme lexemes hopening hclosing later ih =>
      rw [ih]
      simp [withoutStrays, hclosing, Token.closing_ne_opening]
  | case4 children lexeme lexemes hopening hclosing node outer ih =>
      rw [ih, endAll, tokensAll_endAll_cons, tokensAll_endAll_cons]
      simp [withoutStrays, hclosing, Token.closing_ne_opening, tokens]
  | case5 children opened lexeme lexemes hopening hclosing ih =>
      rw [ih, tokensAll_endAll_cons]
      simp [withoutStrays, hopening, hclosing, tokens]

/-- Each token is kept, or it is stray and a problem of its own. -/
theorem countP_strayClose_readFrom (children : List Node) (opened : List OpenNode)
    (lexemes : List Lexeme) :
    (readFrom children opened lexemes).problems.countP (·.cause = .strayClose) +
      (withoutStrays opened.length (lexemes.map Lexeme.token)).length = lexemes.length := by
  fun_induction readFrom children opened lexemes with
  | case1 children opened => simp [withoutStrays, List.countP_eq_zero]
  | case2 children opened lexeme lexemes hopening ih =>
      simp only [List.length_cons] at ih
      simp [withoutStrays, hopening]
      omega
  | case3 children lexeme lexemes hopening hclosing later ih =>
      simp only [List.length_nil] at ih
      simp [withoutStrays, hclosing, Token.closing_ne_opening, later]
      omega
  | case4 children lexeme lexemes hopening hclosing node outer ih =>
      simp [withoutStrays, hclosing, Token.closing_ne_opening]
      omega
  | case5 children opened lexeme lexemes hopening hclosing ih =>
      simp [withoutStrays, hopening, hclosing]
      omega

/-- The lists that are never closed are the other problems, outer ones first. -/
theorem filter_unclosed_readFrom (children : List Node) (opened : List OpenNode)
    (lexemes : List Lexeme) (h : Settled children opened) :
    (readFrom children opened lexemes).problems.filter (·.cause = .unclosed) =
      (openPlacesAll (readFrom children opened lexemes).nodes).map (⟨.unclosed, ·⟩) := by
  fun_induction readFrom children opened lexemes with
  | case1 children opened =>
      rw [h.openPlacesAll_endAll, List.filter_eq_self.mpr (by simp)]
      simp
  | case2 children opened lexeme lexemes hopening ih =>
      refine ih ⟨by simp, ?_⟩
      exact List.forall_mem_cons.mpr ⟨h.children, h.before⟩
  | case3 children lexeme lexemes hopening hclosing later ih =>
      rw [List.filter_cons_of_neg (by simp)]
      exact ih h
  | case4 children lexeme lexemes hopening hclosing node outer ih =>
      obtain ⟨hnode, houter⟩ := List.forall_mem_cons.mp h.before
      refine ih ⟨List.forall_mem_cons.mpr ⟨?_, hnode⟩, houter⟩
      simpa [openPlaces, openPlacesAll_eq_flatMap] using h.children
  | case5 children opened lexeme lexemes hopening hclosing ih =>
      exact ih ⟨List.forall_mem_cons.mpr ⟨rfl, h.children⟩, h.before⟩

end NodeReading

end Lisplet.Document
