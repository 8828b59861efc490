import Lisplet.Interpreter

/-!
# The built-in test table

Pairs of a source text and the text it should evaluate to, run in order against one
interpreter: later cases use what earlier ones defined.  A case that fails is a result
like any other, but a case whose calls nest too deeply ends the test.
-/

namespace Lisplet.SelfTest

/-- The table; an empty expected text means that the form shows nothing. -/
def cases : List (String × String) := [
  ("(quote (testing 1 (2.0) -3.14e159))", "(testing 1 (2) -3.14e+159)"),
  ("(+ 2 2)", "4"),
  ("(+ (* 2 100) (* 1 10))", "210"),
  ("(if (> 6 5) (+ 1 1) (+ 2 2))", "2"),
  ("(if (< 6 5) (+ 1 1) (+ 2 2))", "4"),
  ("(define x 3)", ""),
  ("x", "3"),
  ("(+ x x)", "6"),
  ("(begin (define x 1) (set! x (+ x 1)) (+ x 1))", "3"),
  ("((lambda (x) (+ x x)) 5)", "10"),
  ("(define twice (lambda (x) (* 2 x)))", ""),
  ("(twice 5)", "10"),
  ("(define compose (lambda (f g) (lambda (x) (f (g x)))))", ""),
  ("((compose list twice) 5)", "(10)"),
  ("(define repeat (lambda (f) (compose f f)))", ""),
  ("((repeat twice) 5)", "20"),
  ("((repeat (repeat twice)) 5)", "80"),
  ("(define fact (lambda (n) (if (<= n 1) 1 (* n (fact (- n 1))))))", ""),
  ("(fact 3)", "6"),
  ("(fact 50)", "3.04140932017134e+64"),
  ("(define abs (lambda (n) ((if (> n 0) + -) 0 n)))", ""),
  ("(list (abs -3) (abs 0) (abs 3))", "(3 0 3)"),
  ("(not #f)", "#t"),
  ("(length (list 1 2 3))", "3"),
  ("(length ())", "0"),
  ("(null? ())", "#t"),
  ("(null? (list 0))", "#f"),
  ("(begin (define a (list 1 2 3 4)) a)", "(1 2 3 4)"),
  ("(car a)", "1"),
  ("(cdr a)", "(2 3 4)"),
  ("(car (cdr (cdr a)))", "3"),
  ("(define combine (lambda (f) (lambda (x y) (if (null? x) (quote ()) (f (list " ++
    "(car x) (car y)) ((combine f) (cdr x) (cdr y)))))))",
    ""),
  ("(cons (list 1) (list 2 3))", "((1) 2 3)"),
  ("(cons 1 (list 2 3))", "(1 2 3)"),
  ("(define zip (combine cons))", ""),
  ("(zip (list 1 2 3 4) (list 5 6 7 8))", "((1 5) (2 6) (3 7) (4 8))"),
  ("(append (list 1) (list 2 3))", "(1 2 3)"),
  ("(append (list 1 2) (list 3))", "(1 2 3)"),
  ("((combine append) (list 1 2 3 4) (list 5 6 7 8))", "(1 5 2 6 3 7 4 8)"),
  ("(define riff-shuffle (lambda (deck) (begin (define take (lambda (n seq) (if (<= " ++
    "n 0) (quote ()) (cons (car seq) (take (- n 1) (cdr seq)))))) (define drop " ++
    "(lambda (n seq) (if (<= n 0) seq (drop (- n 1) (cdr seq))))) (define mid " ++
    "(lambda (seq) (/ (length seq) 2))) ((combine append) (take (mid deck) deck) " ++
    "(drop (mid deck) deck)))))",
    ""),
  ("(riff-shuffle (list 1 2 3 4 5 6 7 8))", "(1 5 2 6 3 7 4 8)"),
  ("((repeat riff-shuffle) (list 1 2 3 4 5 6 7 8))", "(1 3 5 7 2 4 6 8)"),
  ("(riff-shuffle (riff-shuffle (riff-shuffle (list 1 2 3 4 5 6 7 8))))",
    "(1 2 3 4 5 6 7 8)")
]

structure Result where
  source : String
  expected : String
  actual : String
  passed : Bool
  error : Option String

/-- What running some cases gives: the results before the first case that has none, the
texts of the forms whose evaluation began, and the failure of that case. -/
structure Run where
  results : List Result
  begun : List String
  failure : Option Failure

/-- The result of a case; one that nests too deeply has none. -/
def resultOf (source expected : String) : Except Failure String → Except Failure Result
  | .ok actual => .ok ⟨source, expected, actual, actual == expected, none⟩
  | .error failure =>
    match failure.kind with
    | .tooDeep => .error failure
    | _ => .ok ⟨source, expected, "", false, some failure.report⟩

def runCases (interpreter : Interpreter) : List (String × String) → Run × Interpreter
  | [] => (⟨[], [], none⟩, interpreter)
  | (source, expected) :: rest =>
    let (transcript, interpreter) := interpreter.values (some source)
    let text := transcript.lastValue.bind (·.datum.write interpreter.limit)
    match resultOf source expected text with
    | .error failure => (⟨[], transcript.begun, some failure⟩, interpreter)
    | .ok result =>
      let (later, interpreter) := runCases interpreter rest
      (⟨result :: later.results, transcript.begun ++ later.begun, later.failure⟩, interpreter)

def run (interpreter : Interpreter) : Run × Interpreter := runCases interpreter cases

def failures (results : List Result) : Nat := results.countP (!·.passed)

/-- The line that shows a result; nothing shown is written as a word, and a result that
did not pass says what was wrong or what was expected. -/
def Result.line (result : Result) : String :=
  let actual := if result.actual.isEmpty then "None" else result.actual
  let line := result.source ++ " => " ++ actual
  if result.passed then line
  else line ++ " !! => " ++ result.error.getD result.expected

/-- The last line of a test: how many cases passed and how many did not. -/
def summary (results : List Result) : String :=
  toString (cases.length - failures results) ++ " passed, " ++ toString (failures results) ++ " failed"

def status (results : List Result) : Nat := if failures results = 0 then 0 else 1

end Lisplet.SelfTest
