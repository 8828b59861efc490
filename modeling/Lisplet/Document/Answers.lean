import Lisplet.Document.Index
import Lisplet.Primitive

/-!
# Answers

What an editor is shown of the index of a document: its problems, what a word means, the
names that can be typed, and the outline.  Built-in names are shown with how they are used.
-/

namespace Lisplet

/-! ## Signatures of the built-in names -/

def SpecialForm.signature : SpecialForm → String
  | quotation => "(quote datum)"
  | conditional => "(if test consequent alternative)"
  | definition => "(define name value)"
  | assignment => "(set! name value)"
  | abstraction => "(lambda (params ...) body)"
  | sequence => "(begin expr ...)"

namespace Primitive

/-- All primitives, in the order in which they are offered to the writer of a document. -/
def offered : List Primitive := [
  arithmetic .add, arithmetic .sub, arithmetic .mul, arithmetic .div, arithmetic .rem,
  comparison .lt, comparison .le, comparison .eq, comparison .gt, comparison .ge,
  car, cdr, cons, append, list, length,
  variant .list, variant .null, variant .number, variant .procedure, variant .symbol, variant .boolean,
  not, identical, equal, map, apply]

def argumentNames : Primitive → List String
  | arithmetic _ | comparison _ | identical | equal => ["a", "b"]
  | variant _ => ["x"]
  | car | cdr | length => ["xs"]
  | cons => ["x", "xs"]
  | append => ["xs", "ys"]
  | list => ["x", "..."]
  | not => ["b"]
  | map => ["f", "xs"]
  | apply => ["f", "args"]

def signature (operation : Primitive) : String :=
  "(" ++ String.intercalate " " (operation.name :: operation.argumentNames) ++ ")"

end Primitive

namespace Document

/-! ## Answers to requests -/

/-- A range in one line, from a column up to another. -/
structure Span where
  line : Nat
  first : Nat
  last : Nat
deriving DecidableEq

def Place.span (place : Place) (length : Nat) : Span :=
  ⟨place.line, place.column, place.column + length⟩

structure Diagnostic where
  message : String
  span : Span
deriving DecidableEq

def publisher : String := "lispflat-ls"

def Diagnostic.ofProblem (problem : Problem) : Diagnostic :=
  ⟨problem.cause.message, problem.place.span problem.cause.length⟩

inductive Mark where
  | keyword
  | function
  | variableName
deriving DecidableEq

namespace Mark

def label : Mark → String
  | keyword => "Keyword"
  | function => "Function"
  | variableName => "Variable"

end Mark

def Definition.mark (definition : Definition) : Mark :=
  if definition.parameters.isSome then .function else .variableName

structure Completion where
  label : String
  mark : Mark
  detail : String
deriving DecidableEq

structure OutlineEntry where
  name : String
  mark : Mark
  span : Span
  detail : String
deriving DecidableEq

namespace Index

def diagnostics (index : Index) : List Diagnostic := index.problems.map .ofProblem

/-- What is shown about a word: its signature and what it is.  Built-in names come before
definitions. -/
def hoverText (index : Index) (word : String) : Option String :=
  match SpecialForm.ofKeyword? word with
  | some form => some (form.signature ++ " (special form)")
  | none =>
    match Primitive.ofName? word with
    | some operation => some (operation.signature ++ " (primitive)")
    | none => (index.definition? word).map fun definition =>
      definition.signature ++ " (defined at " ++ toString (definition.place.line + 1) ++ ":" ++
        toString (definition.place.column + 1) ++ ")"

/-- The names that are offered: keywords, primitives, and then the definitions. -/
def completions (index : Index) : List Completion :=
  SpecialForm.all.map (fun form => ⟨form.keyword, .keyword, form.signature⟩) ++
    Primitive.offered.map (fun operation => ⟨operation.name, .function, operation.signature⟩) ++
    index.definitions.map (fun definition =>
      ⟨definition.name, definition.mark, definition.signature⟩)

def outline (index : Index) : List OutlineEntry :=
  index.definitions.map fun definition =>
    ⟨definition.name, definition.mark, definition.place.span definition.name.length,
      definition.signature⟩

end Index

end Document

end Lisplet
