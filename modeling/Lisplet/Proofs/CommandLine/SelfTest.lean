import Lisplet.CommandLine.Execution

/-!
# What the built-in test reports

The cases of a table run one after the other, each on what the earlier ones left behind.
A case that fails is reported like one that passes, and the later ones still run.  Only a
case whose calls nest too deeply is not reported: it ends the test.
-/

namespace Lisplet

/-- An interpreter after some texts; what a text did before it failed stays done. -/
def Interpreter.afterTexts (interpreter : Interpreter) (sources : List String) : Interpreter :=
  sources.foldl (fun interpreter source => (interpreter.evalText (some source)).2) interpreter

theorem Failure.kind_eq_tooDeep_iff (failure : Failure) :
    failure.kind = .tooDeep ↔ failure = .depthExceeded := by
  cases failure <;> simp [kind]

namespace SelfTest

/-- The outcome of the case at a position, evaluated after the cases before it. -/
def outcome (interpreter : Interpreter) (table : List (String × String)) (i : Nat) :
    Except Failure String :=
  ((interpreter.afterTexts ((table.take i).map Prod.fst)).evalText (table[i]?.map Prod.fst)).1

/-- A result says what came of a case that is given by its text and the expected one. -/
structure Reports (case : String × String) (outcome : Except Failure String) (result : Result) :
    Prop where
  source : result.source = case.1
  expected : result.expected = case.2
  passed_iff : result.passed = true ↔ outcome = .ok case.2
  shown : ∀ text, outcome = .ok text → result.actual = text ∧ result.error = none
  complaint : ∀ failure, outcome = .error failure →
    result.actual = "" ∧ result.error = some failure.report
  carriedOut : outcome ≠ .error .depthExceeded

/-- A case has a result unless its calls nest too deeply. -/
theorem resultOf_cases (source expected : String) (outcome : Except Failure String) :
    (∃ result, resultOf source expected outcome = .ok result ∧
        Reports (source, expected) outcome result) ∨
      outcome = .error .depthExceeded ∧
        resultOf source expected outcome = .error .depthExceeded := by
  cases outcome with
  | ok text =>
      refine .inl ⟨_, rfl, rfl, rfl, ?_, ?_, ?_, ?_⟩
      · simp
      · rintro _ ⟨⟩
        exact ⟨rfl, rfl⟩
      · rintro _ ⟨⟩
      · rintro ⟨⟩
  | error failure =>
      by_cases hdeep : failure.kind = .tooDeep
      · obtain rfl := failure.kind_eq_tooDeep_iff.mp hdeep
        exact .inr ⟨rfl, rfl⟩
      · refine .inl ⟨⟨source, expected, "", false, some failure.report⟩, ?_, rfl, rfl, ?_, ?_,
          ?_, ?_⟩
        · rw [resultOf]
          split
          · contradiction
          · rfl
        · simp
        · rintro _ ⟨⟩
        · rintro _ ⟨⟩
          exact ⟨rfl, rfl⟩
        · rintro ⟨⟩
          exact hdeep rfl

/-! ## Running a table -/

section Running

variable {interpreter : Interpreter} {source expected : String}

theorem runCases_cons_of_ok {result : Result} (rest : List (String × String))
    (h : resultOf source expected (interpreter.evalText (some source)).1 = .ok result) :
    let later := runCases (interpreter.evalText (some source)).2 rest
    (runCases interpreter ((source, expected) :: rest)).1.results = result :: later.1.results ∧
      (runCases interpreter ((source, expected) :: rest)).1.failure = later.1.failure := by
  have htext : resultOf source expected ((interpreter.values (some source)).1.lastValue.bind
      (·.datum.write (interpreter.values (some source)).2.limit)) = .ok result := h
  simp only [runCases, htext]
  exact ⟨rfl, rfl⟩

theorem runCases_cons_of_error {failure : Failure} (rest : List (String × String))
    (h : resultOf source expected (interpreter.evalText (some source)).1 = .error failure) :
    (runCases interpreter ((source, expected) :: rest)).1.results = [] ∧
      (runCases interpreter ((source, expected) :: rest)).1.failure = some failure := by
  have htext : resultOf source expected ((interpreter.values (some source)).1.lastValue.bind
      (·.datum.write (interpreter.values (some source)).2.limit)) = .error failure := h
  simp only [runCases, htext, and_self]

end Running

/-- What a test shows of a table: its results report the first cases, in order; they are
all there, or the next case nests too deeply and is what ends the test. -/
structure Accounts (interpreter : Interpreter) (table : List (String × String)) (test : Run) :
    Prop where
  reports : ∀ i result, test.results[i]? = some result →
    ∃ case, table[i]? = some case ∧ Reports case (outcome interpreter table i) result
  complete : test.failure = none → test.results.length = table.length
  broken : ∀ failure, test.failure = some failure →
    failure = .depthExceeded ∧ test.results.length < table.length ∧
      outcome interpreter table test.results.length = .error .depthExceeded

theorem runCases_accounts (interpreter : Interpreter) (table : List (String × String)) :
    Accounts interpreter table (runCases interpreter table).1 := by
  induction table generalizing interpreter with
  | nil => exact ⟨by simp [runCases], fun _ => rfl, by simp [runCases]⟩
  | cons case rest ih =>
      obtain ⟨source, expected⟩ := case
      rcases resultOf_cases source expected (interpreter.evalText (some source)).1 with
        ⟨result, hresult, hreports⟩ | ⟨hdeep, hfailed⟩
      · obtain ⟨hresults, hfailure⟩ := runCases_cons_of_ok rest hresult
        obtain ⟨hlater, hcomplete, hbroken⟩ := ih (interpreter.evalText (some source)).2
        refine ⟨?_, ?_, ?_⟩
        · intro i other hother
          rw [hresults] at hother
          cases i with
          | zero =>
              obtain rfl := Option.some.inj hother
              exact ⟨_, rfl, hreports⟩
          | succ i => exact hlater i other hother
        · rw [hresults, hfailure]
          exact fun hnone => congrArg (· + 1) (hcomplete hnone)
        · rw [hresults, hfailure]
          intro failure hsome
          obtain ⟨hkind, hlength, houtcome⟩ := hbroken failure hsome
          exact ⟨hkind, Nat.succ_lt_succ hlength, houtcome⟩
      · obtain ⟨hresults, hfailure⟩ := runCases_cons_of_error rest hfailed
        refine ⟨?_, ?_, ?_⟩
        · rw [hresults]
          rintro i result ⟨⟩
        · rw [hfailure]
          rintro ⟨⟩
        · rw [hresults, hfailure]
          rintro _ ⟨⟩
          exact ⟨rfl, Nat.succ_pos _, hdeep⟩

namespace Accounts

variable {interpreter : Interpreter} {table : List (String × String)} {test : Run}

theorem carriedOut (h : Accounts interpreter table test) {i : Nat}
    (hi : i < test.results.length) : outcome interpreter table i ≠ .error .depthExceeded := by
  obtain ⟨case, -, hreports⟩ := h.reports i _ (List.getElem?_eq_getElem hi)
  exact hreports.carriedOut

/-- A test is complete if no case of the table nests too deeply. -/
theorem failure_eq_none_iff (h : Accounts interpreter table test) :
    test.failure = none ↔
      ∀ i < table.length, outcome interpreter table i ≠ .error .depthExceeded := by
  constructor
  · intro hnone i hi
    exact h.carriedOut (h.complete hnone ▸ hi)
  · intro hdepth
    cases hfailure : test.failure with
    | none => rfl
    | some failure =>
        obtain ⟨-, hlength, hdeep⟩ := h.broken failure hfailure
        exact absurd hdeep (hdepth _ hlength)

/-- In a complete test some result did not pass if some case has another outcome than the
table says. -/
theorem exists_failed_iff (h : Accounts interpreter table test) (hnone : test.failure = none) :
    (∃ result ∈ test.results, result.passed = false) ↔
      ∃ i case, table[i]? = some case ∧ outcome interpreter table i ≠ .ok case.2 := by
  constructor
  · rintro ⟨result, hmem, hfailed⟩
    obtain ⟨i, hi⟩ := List.mem_iff_getElem?.mp hmem
    obtain ⟨case, hcase, hreports⟩ := h.reports i result hi
    refine ⟨i, case, hcase, fun hpassed => ?_⟩
    rw [hreports.passed_iff.mpr hpassed] at hfailed
    cases hfailed
  · rintro ⟨i, case, hcase, houtcome⟩
    have hi : i < test.results.length := by
      rw [h.complete hnone]
      exact (List.getElem?_eq_some_iff.mp hcase).1
    obtain ⟨other, hother, hreports⟩ := h.reports i _ (List.getElem?_eq_getElem hi)
    obtain rfl := Option.some.inj (hcase.symm.trans hother)
    exact ⟨_, List.getElem_mem hi,
      Bool.eq_false_iff.mpr fun hpassed => houtcome (hreports.passed_iff.mp hpassed)⟩

end Accounts

theorem failures_eq_zero_iff (results : List Result) :
    failures results = 0 ↔ ¬∃ result ∈ results, result.passed = false := by
  simp [failures, List.countP_eq_zero]

theorem status_eq_zero_iff (results : List Result) :
    status results = 0 ↔ failures results = 0 := by
  rw [status]
  split <;> simp [*]

theorem status_eq_one_iff (results : List Result) :
    status results = 1 ↔ failures results ≠ 0 := by
  rw [status]
  split <;> simp [*]

theorem passed_add_failures (results : List Result) :
    results.countP (·.passed) + failures results = results.length := by
  rw [List.length_eq_countP_add_countP (·.passed)]
  simp [failures]

/-- The last line of a complete test shows how many results passed and how many did not. -/
theorem summary_eq {results : List Result} (h : results.length = cases.length) :
    summary results = toString (results.countP (·.passed)) ++ " passed, " ++
      toString (failures results) ++ " failed" := by
  have hsum := passed_add_failures results
  rw [summary, Nat.sub_eq_of_eq_add (h.symm.trans hsum.symm)]

section Program

variable {assignment : CommandLine.Assignment}

theorem executeSelfTest_of_complete
    (h : (run (Interpreter.create assignment.limit)).1.failure = none) :
    let results := (run (Interpreter.create assignment.limit)).1.results
    let shown := CommandLine.executeSelfTest assignment
    shown.output = CommandLine.linesText (results.map Result.line ++ [summary results]) ∧
      shown.exit = .status (status results) := by
  rw [CommandLine.executeSelfTest, h]
  exact ⟨rfl, rfl⟩

theorem executeSelfTest_of_broken {failure : Failure}
    (h : (run (Interpreter.create assignment.limit)).1.failure = some failure) :
    let shown := CommandLine.executeSelfTest assignment
    shown.output = "" ∧ shown.exit = .failed failure := by
  rw [CommandLine.executeSelfTest, h]
  exact ⟨rfl, rfl⟩

end Program

/-- The built-in test of any interpreter reports its cases in order, each with what came of
it after the earlier ones.  It is complete exactly if no case nests too deeply; then the
two numbers of its last line sum to the number of cases, and the program ends with one if
some case has another outcome than the table says, and with zero otherwise.  A case that
nests too deeply ends the test and the program, and nothing is shown. -/
theorem run_reports (interpreter : Interpreter) :
    let test := (run interpreter).1
    let passed := test.results.countP (·.passed)
    let failed := test.results.countP (!·.passed)
    let last := toString passed ++ " passed, " ++ toString failed ++ " failed"
    Accounts interpreter cases test ∧
      (test.failure = none ↔
        ∀ i < cases.length, outcome interpreter cases i ≠ .error .depthExceeded) ∧
      (test.failure = none → passed + failed = cases.length ∧ summary test.results = last ∧
        (status test.results = 1 ↔
          ∃ i case, cases[i]? = some case ∧ outcome interpreter cases i ≠ .ok case.2) ∧
        (status test.results = 0 ↔
          ∀ i case, cases[i]? = some case → outcome interpreter cases i = .ok case.2)) ∧
      ∀ assignment, Interpreter.create assignment.limit = interpreter →
        let shown := CommandLine.executeSelfTest assignment
        (test.failure = none →
          shown.output = CommandLine.linesText (test.results.map Result.line ++ [last]) ∧
            shown.exit = .status (status test.results)) ∧
        (test.failure ≠ none → shown.output = "" ∧ shown.exit = .failed .depthExceeded) := by
  intro test passed failed last
  have haccounts : Accounts interpreter cases test := runCases_accounts interpreter cases
  refine ⟨haccounts, haccounts.failure_eq_none_iff, fun hnone => ?_, ?_⟩
  · have hlength := haccounts.complete hnone
    have hfailed := haccounts.exists_failed_iff hnone
    refine ⟨(passed_add_failures test.results).trans hlength, summary_eq hlength, ?_, ?_⟩
    · rw [status_eq_one_iff, Ne, failures_eq_zero_iff, Classical.not_not, hfailed]
    · rw [status_eq_zero_iff, failures_eq_zero_iff, hfailed]
      simp only [not_exists, not_and, Classical.not_not]
  · rintro assignment rfl
    refine ⟨fun hnone => ?_, fun hsome => ?_⟩
    · obtain ⟨houtput, hexit⟩ := executeSelfTest_of_complete hnone
      rw [summary_eq (haccounts.complete hnone)] at houtput
      exact ⟨houtput, hexit⟩
    · obtain ⟨failure, hfailure⟩ := Option.ne_none_iff_exists'.mp hsome
      obtain ⟨rfl, -, -⟩ := haccounts.broken failure hfailure
      exact executeSelfTest_of_broken hfailure

/-- Addition is defined as a procedure that calls itself without end: the test ends at
its second case. -/
theorem run_reports_runaway :
    let started := Interpreter.create 100
    let interpreter := (started.evalText (some "(define + (lambda (a b) (+ a b)))")).2
    outcome interpreter cases 1 = .error .depthExceeded ∧
      (run interpreter).1.failure = some .depthExceeded ∧
      (run interpreter).1.results.length = 1 := by
  intro started interpreter
  have hended : (run interpreter).1.failure.isSome = true ∧
      (run interpreter).1.results.length = 1 := by decide +kernel
  obtain ⟨haccounts, -⟩ := run_reports interpreter
  obtain ⟨failure, hfailure⟩ := Option.isSome_iff_exists.mp hended.1
  obtain ⟨rfl, -, hdeep⟩ := haccounts.broken failure hfailure
  rw [hended.2] at hdeep
  exact ⟨hdeep, hfailure, hended.2⟩

end SelfTest

end Lisplet
