/-!
# Primitives

The procedures that every global frame starts with, by what they do, and their names.
-/

namespace Lisplet

inductive Arithmetic where
  | add | sub | mul | div | rem
deriving DecidableEq

inductive Comparison where
  | lt | le | eq | gt | ge
deriving DecidableEq

inductive VariantTest where
  | list | null | number | procedure | symbol | boolean
deriving DecidableEq

inductive Primitive where
  | arithmetic (operation : Arithmetic)
  | comparison (relation : Comparison)
  | variant (test : VariantTest)
  | car | cdr | cons | append | list | length
  | not
  | identical | equal
  | map | apply
deriving DecidableEq

namespace Primitive

/-- All primitives, in the order in which a global frame lists them. -/
def all : List Primitive := [
  arithmetic .add, arithmetic .sub, arithmetic .mul, arithmetic .div, arithmetic .rem,
  comparison .lt, comparison .le, comparison .eq, comparison .gt, comparison .ge,
  variant .list, variant .null, variant .number, variant .procedure, variant .symbol, variant .boolean,
  car, cdr, cons, append, list, length, not, identical, equal, map, apply]

def name : Primitive → String
  | arithmetic .add => "+"
  | arithmetic .sub => "-"
  | arithmetic .mul => "*"
  | arithmetic .div => "/"
  | arithmetic .rem => "%"
  | comparison .lt => "<"
  | comparison .le => "<="
  | comparison .eq => "="
  | comparison .gt => ">"
  | comparison .ge => ">="
  | variant .list => "list?"
  | variant .null => "null?"
  | variant .number => "number?"
  | variant .procedure => "procedure?"
  | variant .symbol => "symbol?"
  | variant .boolean => "boolean?"
  | car => "car"
  | cdr => "cdr"
  | cons => "cons"
  | append => "append"
  | list => "list"
  | length => "length"
  | not => "not"
  | identical => "eq?"
  | equal => "equal?"
  | map => "map"
  | apply => "apply"

def ofName? (name : String) : Option Primitive :=
  all.find? fun primitive => primitive.name == name

end Primitive

end Lisplet
