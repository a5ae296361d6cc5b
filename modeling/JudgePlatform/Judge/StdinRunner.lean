/-
# The stdin runner

A submission for a problem whose program reads its standard input (`stdin_runner.go`):
one exec for each test, the output compared as text (`pkg/comparator/text.go`).  As
in the central runner, what the container answers is an argument.
-/
import JudgePlatform.Judge.CentralRunner

namespace Judge

/-- `strings.TrimRight(s, " \t\r\n")`. -/
def trimRight (s : String) : String :=
  String.ofList
    (s.toList.reverse.dropWhile fun c => c = ' ' ∨ c = '\t' ∨ c = '\r' ∨ c = '\n').reverse

def compareText (actual expected : String) : Bool := trimRight actual = trimRight expected

def stdinTestInput (tc : TestCase) : Option String :=
  match tc.input with
  | some [.string s] => some s
  | _ => none

def stdinTestExpected (tc : TestCase) : Option String :=
  match tc.expected with
  | .string s => some s
  | _ => none

/-- One turn of the loop over the tests. -/
def stdinResult (i : ℕ) (tc : TestCase) (answer : ExecAnswer) : TestResult :=
  let tr : TestResult := { test := i + 1, input := tc.inputValue, expected := tc.expected }
  match stdinTestInput tc, stdinTestExpected tc with
  | some _, some expectedText =>
    let stdoutForResult := truncateString answer.stdout maxTestOutputBytes
    let stderrForLog := (truncateString (Text.trimSpace answer.stderr) maxLogOutputBytes).1
    let tr := { tr with stdout := stdoutForResult.1, stderr := stderrForLog }
    match answer.err with
    -- a non-zero exit is the program's own failure: no internal error
    | some runErr => (markRunError runErr stderrForLog tr).1
    | none =>
      if stdoutForResult.2 then
        { markTestFailed tr submissionStatusWrongAnswer with error := "Output Limit Exceeded" }
      else
        let passed := compareText answer.stdout expectedText
        { tr with
          output := .string answer.stdout
          passed := passed
          ok := passed
          errorType := if passed then tr.errorType else errorTypeWrongAnswer }
  | _, _ =>
    { markTestFailed tr submissionStatusRuntimeError with
      error := "invalid stdin test case shape (expected string input/expected)" }

/-- The loop over the tests, from test number `i + 1` on. -/
def stdinLoop (clock : Clock) (run : ℕ → ExecAnswer) :
    ℕ → List TestCase → SubmissionResult → SubmissionResult
  | _, [], result => result
  | i, tc :: tcs, result =>
    stdinLoop clock run (i + 1) tcs
      (result.addTestResult
        { stdinResult i tc (run i) with timeMs := clock.testMs result.details.length })

/-- `runSubmissionStdinDetailed` for a language that has a stdin adapter. -/
def runSubmissionStdin (problem : Problem) (clock : Clock) (prep : Preparation)
    (run : ℕ → ExecAnswer) : Except GoError SubmissionResult :=
  match prep.prepareFiles with
  | some err => .error err
  | none =>
    match compileCentralSubmission prep.compile with
    | some err => .ok (finalizeExecutionFailure (startedResult clock) err clock)
    | none =>
      .ok ((stdinLoop clock run 0 problem.testCases (startedResult clock)).finish
        clock).updateStatus

end Judge
