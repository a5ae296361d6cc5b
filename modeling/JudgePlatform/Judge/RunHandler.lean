/-
# The synchronous runs of the judge

`POST /run` of `startHealthServer` (`main.go`): without tests of its own a request runs the
samples of a stored problem, and all its tests where none is marked as a sample.  The
problem is checked with `ValidateBasic` (`pkg/models/problem.go`) and executed by the
strategy of its type.

* `selectTests` : the tests that are executed.
* `runHandler` : the handler, from the stored problem to its result.
* `tests_runHandler` : each detail of a result is about one of the executed tests, by its
  number among them.
-/
import JudgePlatform.Judge.SuccessMeaning
import JudgePlatform.Judge.TestDecoding
import JudgePlatform.Judge.TypeStrings

namespace Judge

/-! ## Validation -/

def functionProblem := "function"
def stdinProblem := "stdin"

/-- `EffectiveType`. -/
def Problem.effectiveType (p : Problem) : String :=
  if p.problemType = "" then functionProblem else p.problemType

/-- `%+v` of a parameter. -/
def Parameter.text (param : Parameter) : String :=
  "\x7bName:" ++ param.name ++ " Type:" ++ param.type ++ "\x7d"

def validateParameters : List Parameter → Except String Unit
  | [] => .ok ()
  | param :: params =>
    if param.name = "" ∨ param.type = "" then .error ("invalid parameter: " ++ param.text)
    else if isValid param.type then validateParameters params
    else .error ("invalid type for parameter " ++ param.name ++ ": " ++ param.type)

/-- The checks of the texts and types of a problem. -/
def validateSignature (p : Problem) : Except String Unit :=
  if p.title = "" then .error "title is required"
  else if p.description = "" then .error "description is required"
  else if p.effectiveType = stdinProblem then .ok ()
  else if p.functionName = "" then .error "functionName is required"
  else if p.returnType = "" then .error "returnType is required"
  else if isValid p.returnType then validateParameters p.parameters
  else .error ("invalid returnType: " ++ p.returnType)

/-- `len(tc.Input)`. -/
def TestCase.arity (tc : TestCase) : ℕ := (tc.input.getD []).length

/-- The check of each test against the parameters, from number `i` on. -/
def validateArities (parameters : ℕ) : ℕ → List TestCase → Except String Unit
  | _, [] => .ok ()
  | i, tc :: tcs =>
    if tc.arity ≠ parameters then
      .error ("test " ++ Text.itoa i ++ ": input length " ++ Text.itoa tc.arity ++
        " does not match expected params " ++ Text.itoa parameters)
    else validateArities parameters (i + 1) tcs

/-- The check of the tests of a stdin problem. -/
def validateStdinTests : ℕ → List TestCase → Except String Unit
  | _, [] => .ok ()
  | i, tc :: tcs =>
    if tc.arity ≠ 1 then
      .error ("test " ++ Text.itoa i ++ ": stdin problems require exactly one input element " ++
        "(the stdin text), got " ++ Text.itoa tc.arity)
    else if (stdinTestInput tc).isNone then
      .error ("test " ++ Text.itoa i ++ ": stdin input must be a string")
    else if (stdinTestExpected tc).isNone then
      .error ("test " ++ Text.itoa i ++ ": stdin expected output must be a string")
    else validateStdinTests (i + 1) tcs

def validateTests (p : Problem) : Except String Unit :=
  let arities :=
    if p.parameters = [] then .ok () else validateArities p.parameters.length 0 p.testCases
  match arities with
  | .error e => .error e
  | .ok () => if p.effectiveType = stdinProblem then validateStdinTests 0 p.testCases else .ok ()

section Handler

variable (outside : ℚ → ℤ) (decodeError : String → String)

/-- `ValidateBasic`, with the problem that it leaves: raw tests are parsed for a problem that
has no others. -/
def validateBasic (p : Problem) : Except String Problem :=
  match validateSignature p with
  | .error e => .error e
  | .ok () =>
    let parsed :=
      if p.testCases.isEmpty && p.testsJSON ≠ "" then
        (parseTestsJSON outside decodeError p).mapError ("failed to parse tests JSON: " ++ ·)
      else .ok p
    match parsed with
    | .error e => .error e
    | .ok p =>
      match validateTests p with
      | .error e => .error e
      | .ok () => .ok p

/-! ## The handler -/

/-- The samples of a problem, or all its tests if there is no sample. -/
def selectTests (testCases : List TestCase) : List TestCase :=
  let samples := testCases.filter fun tc => tc.isSample
  if samples.isEmpty then testCases else samples

/-- The execution strategies. -/
inductive Strategy where
  | function
  | stdin

/-- `ResolveStrategy`. -/
def resolveStrategy (problemType : String) : Option Strategy :=
  if problemType = functionProblem then some .function
  else if problemType = stdinProblem then some .stdin
  else none

/-- What a run meets: a reason why it is not executed, such as a language that is not
supported or no free container; the preparation of the files; the answers of the execs, one
for each test, or one stream where the language is run in batches. -/
structure Surroundings where
  refusal : Option String
  clock : Clock
  prep : Preparation
  run : ℕ → ExecAnswer
  batch : Option (Except GoError ExecStream)

def Strategy.run (problem : Problem) (s : Surroundings) :
    Strategy → Except GoError SubmissionResult
  | .function =>
    match s.batch with
    | some stream => runSubmissionCentralBatched problem s.clock s.prep stream
    | none => runSubmissionCentralPerTest problem s.clock s.prep s.run
  | .stdin => runSubmissionStdin problem s.clock s.prep s.run

/-- The handler of `/run` for a stored problem and a request without tests: the text of an
error, or the result. -/
def runHandler (s : Surroundings) (stored : Problem) : Except String SubmissionResult :=
  match validateBasic outside decodeError
      { stored with testCases := selectTests stored.testCases } with
  | .error e => .error ("Invalid problem data: " ++ e)
  | .ok problem =>
    if problem.testCases.isEmpty then .error "No test cases to run"
    else
      match resolveStrategy problem.effectiveType, s.refusal with
      | none, _ =>
        .error ("No execution strategy registered for problem type: " ++ problem.effectiveType)
      | _, some refusal => .error refusal
      | some strategy, none =>
        match strategy.run problem s with
        | .error err => .error ("Execution failed: " ++ err.text)
        | .ok result => .ok result

end Handler

/-! ## The numbers of the details -/

section Numbers

variable {problem : Problem} {clock : Clock} {prep : Preparation} {result : SubmissionResult}

theorem tests_finalizeExecutionFailure (err : GoError) :
    tests (finalizeExecutionFailure (startedResult clock) err clock) = [] := rfl

theorem tests_perTest {run : ℕ → ExecAnswer}
    (h : runSubmissionCentralPerTest problem clock prep run = .ok result) :
    tests result = [] ∨ tests result = testNumbers problem.testCases.length := by
  unfold runSubmissionCentralPerTest at h
  split at h
  · cases h
  · split at h
    · obtain rfl := Except.ok.inj h
      exact Or.inl (tests_finalizeExecutionFailure _)
    · obtain rfl := Except.ok.inj h
      rw [tests_finish, perTestLoop_tests, testsFrom_zero]
      exact Or.inr rfl

theorem tests_stdin {run : ℕ → ExecAnswer}
    (h : runSubmissionStdin problem clock prep run = .ok result) :
    tests result = [] ∨ tests result = testNumbers problem.testCases.length := by
  unfold runSubmissionStdin at h
  split at h
  · cases h
  · split at h
    · obtain rfl := Except.ok.inj h
      exact Or.inl (tests_finalizeExecutionFailure _)
    · obtain rfl := Except.ok.inj h
      obtain ⟨htests, -⟩ := stdinLoop_spec clock run 0 problem.testCases (startedResult clock)
      rw [tests_finish, htests, testsFrom_zero]
      exact Or.inr rfl

theorem tests_batched {stream : Except GoError ExecStream}
    (h : runSubmissionCentralBatched problem clock prep stream = .ok result) :
    ∀ t ∈ tests result, 0 < t ∧ t ≤ problem.testCases.length := by
  unfold runSubmissionCentralBatched at h
  split at h
  · cases h
  · split at h
    · obtain rfl := Except.ok.inj h
      rw [tests_finalizeExecutionFailure]
      exact fun _ ht => nomatch ht
    · split at h
      · cases h
      · dsimp only at h
        split_ifs at h
        split at h
        · cases h
        · obtain rfl := Except.ok.inj h
          rw [tests_collectBatched]
          intro t ht
          -- a recorded line carries the number of its test, and the missing ones are counted on
          rcases List.mem_append.mp ht with ht | ht
          · obtain ⟨out, hout, rfl⟩ := List.mem_map.mp ht
            exact (mem_recordedLines hout).2
          · obtain ⟨i, hi, rfl⟩ := List.mem_map.mp ht
            rw [List.mem_range'_1] at hi
            omega

theorem Strategy.tests_run {strategy : Strategy} {s : Surroundings}
    (h : strategy.run problem s = .ok result) :
    ∀ t ∈ tests result, 0 < t ∧ t ≤ problem.testCases.length := by
  have hnumbers : tests result = [] ∨ tests result = testNumbers problem.testCases.length →
      ∀ t ∈ tests result, 0 < t ∧ t ≤ problem.testCases.length := by
    rintro (hnil | hall) t ht
    · rw [hnil] at ht
      exact nomatch ht
    · exact mem_testNumbers.mp (hall ▸ ht)
  cases strategy with
  | function =>
    unfold run at h
    cases hbatch : s.batch with
    | some stream =>
      rw [hbatch] at h
      exact tests_batched h
    | none =>
      rw [hbatch] at h
      exact hnumbers (tests_perTest h)
  | stdin => exact hnumbers (tests_stdin h)

end Numbers

/-- Validation changes no problem that has tests. -/
theorem eq_of_validateBasic {outside : ℚ → ℤ} {decodeError : String → String} {p p' : Problem}
    (htests : p.testCases ≠ [] ∨ p.testsJSON = "")
    (h : validateBasic outside decodeError p = .ok p') : p' = p := by
  have hparsed : ¬(p.testCases.isEmpty && decide (p.testsJSON ≠ "")) = true := by
    rw [Bool.and_eq_true, List.isEmpty_iff, decide_eq_true_eq]
    rintro ⟨hnil, hraw⟩
    rcases htests with hne | hempty
    · exact hne hnil
    · exact hraw hempty
  unfold validateBasic at h
  split at h
  · cases h
  · simp only [if_neg hparsed] at h
    split at h
    · cases h
    · exact (Except.ok.inj h).symm

/-- No problem with tests is left without them. -/
theorem selectTests_eq_nil_iff (testCases : List TestCase) :
    selectTests testCases = [] ↔ testCases = [] := by
  unfold selectTests
  simp only
  split_ifs with hempty
  · rfl
  · rw [List.isEmpty_iff] at hempty
    refine iff_of_false hempty ?_
    rintro rfl
    exact hempty rfl

/-- **Each detail of a result is about an executed test**, by its number among them. -/
theorem tests_runHandler {outside : ℚ → ℤ} {decodeError : String → String} {s : Surroundings}
    {stored : Problem} {result : SubmissionResult}
    (htests : stored.testCases ≠ [] ∨ stored.testsJSON = "")
    (h : runHandler outside decodeError s stored = .ok result) :
    ∀ t ∈ tests result, 0 < t ∧ t ≤ (selectTests stored.testCases).length := by
  unfold runHandler at h
  split at h
  · cases h
  · rename_i problem hvalid
    obtain rfl : problem = { stored with testCases := selectTests stored.testCases } := by
      refine eq_of_validateBasic ?_ hvalid
      exact htests.imp_left fun hne hnil => hne ((selectTests_eq_nil_iff _).mp hnil)
    -- validation, the selection, the strategy and the run may each refuse
    split at h
    · cases h
    · split at h
      · cases h
      · cases h
      · split at h
        · cases h
        · rename_i hrun
          obtain rfl := Except.ok.inj h
          exact Strategy.tests_run hrun

end Judge
