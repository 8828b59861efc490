/-!
# Special forms

The closed set of keywords whose operands are not evaluated like arguments.
-/

namespace Lisplet

inductive SpecialForm where
  | quotation
  | conditional
  | definition
  | assignment
  | abstraction
  | sequence
deriving DecidableEq, Inhabited

namespace SpecialForm

/-- All forms, in the order in which they are listed for the user. -/
def all : List SpecialForm :=
  [quotation, conditional, definition, assignment, abstraction, sequence]

def keyword : SpecialForm → String
  | quotation => "quote"
  | conditional => "if"
  | definition => "define"
  | assignment => "set!"
  | abstraction => "lambda"
  | sequence => "begin"

def ofKeyword? (name : String) : Option SpecialForm :=
  all.find? fun form => form.keyword == name

theorem mem_all (form : SpecialForm) : form ∈ all := by
  cases form <;> decide

@[simp]
theorem ofKeyword?_keyword (form : SpecialForm) : ofKeyword? form.keyword = some form := by
  cases form <;> decide

theorem keyword_of_ofKeyword? {name : String} {form : SpecialForm}
    (h : ofKeyword? name = some form) : form.keyword = name := by
  simpa using List.find?_some h

end SpecialForm

end Lisplet
