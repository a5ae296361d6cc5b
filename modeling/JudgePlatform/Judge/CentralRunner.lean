/-
# The central runner

The two ways in which the judge runs a submission against the test cases of a
problem (`central_runner.go`): one exec for each test, or one exec for all of
them whose stderr reports the tests line by line.  What the container, the
language adapter and the clock answer are arguments.

The stderr of a batched run is the text that is copied when stdout has ended:
both pipes are closed together.
-/
import JudgePlatform.Judge.Executor
import JudgePlatform.Judge.Problem
import JudgePlatform.Judge.Results
import JudgePlatform.Judge.WrapperOutput

namespace Judge

def maxTestOutputBytes : ℕ := 64 * 1024
def maxLogOutputBytes : ℕ := 4 * 1024
def maxTestsBytes : ℕ := 2 ^ 20

/-! ## Parts -/

/-- The characters that fit into a number of bytes, and the bytes left over. -/
def takeBytes : ℕ → List Char → List Char × ℕ
  | n, [] => ([], n)
  | n, c :: cs =>
    if c.utf8Size ≤ n then
      let r := takeBytes (n - c.utf8Size) cs
      (c :: r.1, r.2)
    else ([], n)

/-- The first bytes of a text; a character cut in two leaves a U+FFFD for each byte. -/
def truncateString (s : String) (maxBytes : ℕ) : String × Bool :=
  if maxBytes = 0 ∨ Text.byteLength s ≤ maxBytes then (s, false)
  else
    let r := takeBytes maxBytes s.toList
    (String.ofList (r.1 ++ List.replicate r.2 (Char.ofNat 0xFFFD)), true)

/-- What the clock shows during a run, in nanoseconds; `testMs` are the milliseconds
spent on the test that becomes a certain detail. -/
structure Clock where
  startedAt : ℤ
  finishedAt : ℤ
  testMs : ℕ → ℤ

def startedResult (clock : Clock) : SubmissionResult :=
  { newSubmissionResult with
    startedAt := some clock.startedAt
    executionPath := executionPathCentral }

/-- The end of a run: `FinishedAt` and `ElapsedMs`. -/
def SubmissionResult.finish (result : SubmissionResult) (clock : Clock) : SubmissionResult :=
  { result with
    finishedAt := some clock.finishedAt
    elapsedMs := (clock.finishedAt - clock.startedAt).tdiv 1000000 }

def fallbackResultForExecutionFailure (executionPath : String) (execErr : Option GoError)
    (stdout : String) : SubmissionResult :=
  let result :=
    { newSubmissionResult with
      executionPath := executionPath
      status := submissionStatusRuntimeError }
  let wrapperError := { result with internalError := internalErrorWrapper }
  if stdout ≠ "" then { result with internalError := internalErrorJudge }
  else
    match execErr.bind GoError.asExecution with
    | some (.errCompilationFailed, _) => { result with status := submissionStatusCompilationError }
    | some (.errTimeLimitExceeded, _) => { result with status := submissionStatusTimeLimitExceeded }
    | some (.errMemoryLimitExceeded, _) =>
      { result with status := submissionStatusMemoryLimitExceeded }
    | _ => wrapperError

def finalizeExecutionFailure (result : SubmissionResult) (execErr : GoError) (clock : Clock) :
    SubmissionResult :=
  let failure := fallbackResultForExecutionFailure executionPathCentral (some execErr) ""
  SubmissionResult.finish
    { result with
      status := failure.status
      internalError := failure.internalError
      stderr := execErr.text }
    clock

/-- The answer of a container to one exec: stdout, stderr and the error. -/
structure ExecAnswer where
  stdout : String
  stderr : String
  err : Option GoError

/-- The error of the compilation, if there is one; `none` is an adapter that does not compile. -/
def compileCentralSubmission : Option ExecAnswer → Option GoError
  | none => none
  | some answer =>
    answer.err.map fun err =>
      let stdout := Text.trimSpace answer.stdout
      let stderr := Text.trimSpace answer.stderr
      let msg := err.text
      let msg := if stdout ≠ "" then msg ++ " | stdout=" ++ stdout else msg
      let msg := if stderr ≠ "" then msg ++ " | stderr=" ++ stderr else msg
      .wrap "" err (" | " ++ msg)

/-- The error type that `markTestFailed` gives to a reason. -/
def errorTypeOfReason (reason : String) : String :=
  if reason = submissionStatusTimeLimitExceeded then errorTypeTimeout
  else if reason = submissionStatusMemoryLimitExceeded then errorTypeMemoryLimit
  else if reason = submissionStatusRuntimeError ∨ reason = submissionStatusCompilationError then
    errorTypeRuntime
  else errorTypeWrongAnswer

def markTestFailed (tr : TestResult) (reason : String) : TestResult :=
  { tr with
    passed := false
    ok := false
    error := reason
    errorType := errorTypeOfReason reason }

/-- The `inputs` object that a wrapper is given. -/
def TestCase.payload (tc : TestCase) : GoValue := .map [("inputs", tc.inputValue)]

/-- The verdict on a reported output: passed, or a wrong answer. -/
def judgeOutput (problem : Problem) (tc : TestCase) (output : GoValue) (tr : TestResult) :
    TestResult :=
  let passed := compare tc.expected output problem.compareConfig
  { tr with
    output := output
    passed := passed
    ok := passed
    errorType := if passed then tr.errorType else errorTypeWrongAnswer }

/-! ## One exec for each test -/

/-- The classification of the error of an exec: the test result, and whether the
submission gets an internal error. -/
def markRunError (runErr : GoError) (stderrForLog : String) (tr : TestResult) :
    TestResult × Bool :=
  let errStr := Text.toLower runErr.text
  if runErr.is .errTimeLimitExceeded ∨ runErr.is .deadlineExceeded ∨
      Text.contains errStr "deadline exceeded" ∨ Text.contains errStr "timed out" then
    (markTestFailed tr submissionStatusTimeLimitExceeded, false)
  else if runErr.is .errMemoryLimitExceeded ∨ Text.contains errStr "memory limit exceeded" then
    (markTestFailed tr submissionStatusMemoryLimitExceeded, false)
  else
    let failed := markTestFailed tr submissionStatusRuntimeError
    (if stderrForLog ≠ "" then { failed with error := "Runtime Error", traceback := stderrForLog }
      else failed,
      ¬runErr.is .deadlineExceeded ∧ ¬Text.contains errStr "deadline exceeded")

/-- Whether a text reports that memory ran out. -/
def mentionsOutOfMemory (s : String) : Bool := Text.contains (Text.toLower s) "outofmemory"

/-- The result of a test whose exec has succeeded, from its trimmed streams, and the
internal error that it sets. -/
def judgeReport (problem : Problem) (tc : TestCase) (stdout stderr stderrForLog : String)
    (stdoutTruncated : Bool) (tr : TestResult) : TestResult × Option String :=
  if stdoutTruncated then
    ({ markTestFailed tr submissionStatusWrongAnswer with error := "Output Limit Exceeded" }, none)
  else
    match parseSingleTestOutput stdout stderr with
    | (none, userLogs) =>
      ({ markTestFailed tr submissionStatusRuntimeError with
        stdout := userLogs
        traceback := if userLogs = "" ∧ stderrForLog ≠ "" then stderrForLog else userLogs },
        some internalErrorJudge)
    | (some out, userLogs) =>
      let tr := { tr with stdout := userLogs, stderr := "" }
      if out.error ≠ "" then
        (markTestFailed tr
          (if mentionsOutOfMemory out.error ∨ mentionsOutOfMemory out.traceback then
            submissionStatusMemoryLimitExceeded
          else submissionStatusRuntimeError), none)
      else (judgeOutput problem tc out.output tr, none)

/-- One turn of the loop over the tests: the result of the test and, if the turn sets
it, the internal error of the submission. -/
def perTestResult (problem : Problem) (i : ℕ) (tc : TestCase) (answer : ExecAnswer) :
    TestResult × Option String :=
  let tr : TestResult := { test := i + 1, input := tc.inputValue, expected := tc.expected }
  match tc.payload.marshal with
  | .error marshalErr =>
    ({ markTestFailed tr submissionStatusRuntimeError with
      error := "failed to marshal test input: " ++ marshalErr }, none)
  | .ok _ =>
    let stdoutTrimmed := Text.trimSpace answer.stdout
    let stderrTrimmed := Text.trimSpace answer.stderr
    let stdoutForResult := truncateString stdoutTrimmed maxTestOutputBytes
    let stderrForLog := (truncateString stderrTrimmed maxLogOutputBytes).1
    let tr := { tr with stdout := stdoutForResult.1, stderr := stderrForLog }
    match answer.err with
    | some runErr =>
      let r := markRunError runErr stderrForLog tr
      (r.1, if r.2 then some internalErrorWrapper else none)
    | none =>
      judgeReport problem tc stdoutTrimmed stderrTrimmed stderrForLog stdoutForResult.2 tr

/-- The loop over the tests, from test number `i + 1` on. -/
def perTestLoop (problem : Problem) (clock : Clock) (run : ℕ → ExecAnswer) :
    ℕ → List TestCase → SubmissionResult → SubmissionResult
  | _, [], result => result
  | i, tc :: tcs, result =>
    let (tr, internalError) := perTestResult problem i tc (run i)
    let result := { result with internalError := internalError.getD result.internalError }
    perTestLoop problem clock run (i + 1) tcs
      (result.addTestResult { tr with timeMs := clock.testMs result.details.length })

/-- What happens around the tests: the error of `PrepareFiles` and the answer of the compiler. -/
structure Preparation where
  prepareFiles : Option GoError
  compile : Option ExecAnswer

def runSubmissionCentralPerTest (problem : Problem) (clock : Clock) (prep : Preparation)
    (run : ℕ → ExecAnswer) : Except GoError SubmissionResult :=
  match prep.prepareFiles with
  | some err => .error err
  | none =>
    match compileCentralSubmission prep.compile with
    | some err => .ok (finalizeExecutionFailure (startedResult clock) err clock)
    | none =>
      .ok ((perTestLoop problem clock run 0 problem.testCases (startedResult clock)).finish
        clock).updateStatus

/-! ## One exec for all tests -/

/-- The streams of a batched exec and what `Wait` returns. -/
structure ExecStream where
  stdout : Except GoError String
  stderr : String
  wait : ℤ × Option GoError

/-- The result of a test that a judge line reports. -/
def batchedResult (problem : Problem) (rawStdout : String) (out : BatchedTestExecOutput) :
    TestResult :=
  let tc := problem.testCases.getD (out.test - 1).toNat {}
  let tr : TestResult :=
    { test := out.test
      input := tc.inputValue
      expected := tc.expected
      output := out.output
      stdout := rawStdout }
  if out.error ≠ "" then
    let failed :=
      markTestFailed tr
        (if mentionsOutOfMemory out.error then submissionStatusMemoryLimitExceeded
        else submissionStatusRuntimeError)
    if out.traceback ≠ "" then { failed with traceback := out.traceback } else failed
  else judgeOutput problem tc out.output tr

/-- The loop over the lines of stderr: the result, the number of lines that became a
detail, and the error of a fatal line. -/
def batchedLoop (problem : Problem) (clock : Clock) (rawStdout : String) :
    List String → SubmissionResult → ℕ → SubmissionResult × ℕ × Option GoError
  | [], result, processed => (result, processed, none)
  | l :: ls, result, processed =>
    match judgeLine l with
    | none => batchedLoop problem clock rawStdout ls result processed
    | some out =>
      if out.fatal ≠ "" then
        (result, processed, some (.other ("wrapper fatal error: " ++ out.fatal)))
      else if out.test ≤ 0 ∨ (problem.testCases.length : ℤ) < out.test then
        batchedLoop problem clock rawStdout ls result processed
      else
        batchedLoop problem clock rawStdout ls
          (result.addTestResult { batchedResult problem rawStdout out with
            timeMs := clock.testMs result.details.length })
          (processed + 1)

/-- Besides the results of the loop, the part of stderr that was not read. -/
def appendBatchedResults (problem : Problem) (clock : Clock) (stream : ExecStream)
    (result : SubmissionResult) : SubmissionResult × ℕ × Option GoError × String :=
  match stream.stdout with
  | .error err => (result, 0, some err, stream.stderr)
  | .ok rawStdout =>
    let (result, processed, parseErr) :=
      batchedLoop problem clock rawStdout (Text.lines stream.stderr) result 0
    (result, processed, parseErr, "")

/-- The result of a test that no line reports. -/
def missingResult (problem : Problem) (reason : String) (i : ℕ) : TestResult :=
  markTestFailed
    { test := i + 1, expected := (problem.testCases.getD i {}).expected } reason

/-- The tests from number `processed + 1` on; `i` is the number of tests left. -/
def appendMissingLoop (problem : Problem) (reason : String) : ℕ → ℕ → SubmissionResult →
    SubmissionResult
  | 0, _, result => result
  | left + 1, i, result =>
    appendMissingLoop problem reason left (i + 1)
      (result.addTestResult (missingResult problem reason i))

def appendMissingBatchedResults (result : SubmissionResult) (problem : Problem) (processed : ℕ)
    (reason : String) : SubmissionResult :=
  appendMissingLoop problem reason (problem.testCases.length - processed) processed result

/-- The error that a run ends with, from what `Wait` returns. -/
def batchedRunError : ℤ × Option GoError → Option GoError
  | (_, some waitErr) => some (.wrap "execution command failed: " waitErr "")
  | (exitCode, none) =>
    if exitCode ≠ 0 then some (.other ("execution failed with exit code " ++ Text.itoa exitCode))
    else none

/-- Why tests without a line fail, empty if none does, and the internal error that is
recorded with it. -/
def remainingReason (parseErr runErr : Option GoError) (allProcessed : Bool) :
    String × Option String :=
  if parseErr.any fun err => err.is .errBatchedOutputLimitExceeded then ("Output Limit Exceeded", none)
  else
    match runErr, parseErr with
    | some err, _ =>
      let runErrText := Text.toLower err.text
      if Text.contains runErrText "timed out" ∨ Text.contains runErrText "deadline exceeded" then
        ("Time Limit Exceeded", none)
      else ("Runtime Error", some internalErrorWrapper)
    | none, some _ => ("Runtime Error", some internalErrorJudge)
    | none, none => if allProcessed then ("", none) else ("Runtime Error", some internalErrorWrapper)

/-- The tests JSON that the wrapper of a batched run is given. -/
def testsPayload (problem : Problem) : GoValue := .slice (problem.testCases.map TestCase.payload)

/-- The fields that an error of the run sets: `Stderr` to what was left unread, and
`InternalError`. -/
def SubmissionResult.recordErrors (result : SubmissionResult)
    (unread internalError : Option String) : SubmissionResult :=
  { result with
    stderr := unread.getD result.stderr
    internalError := internalError.getD result.internalError }

/-- The part of a batched run after the exec was started. -/
def collectBatched (problem : Problem) (clock : Clock) (stream : ExecStream)
    (result : SubmissionResult) : SubmissionResult :=
  let (result, processed, parseErr, unread) := appendBatchedResults problem clock stream result
  let (reason, internalError) :=
    remainingReason parseErr (batchedRunError stream.wait)
      (problem.testCases.length ≤ processed)
  let result := result.recordErrors (if parseErr.isSome then some unread else none) internalError
  let result :=
    if reason ≠ "" then appendMissingBatchedResults result problem processed reason else result
  (result.finish clock).updateStatus

def runSubmissionCentralBatched (problem : Problem) (clock : Clock) (prep : Preparation)
    (stream : Except GoError ExecStream) : Except GoError SubmissionResult :=
  match prep.prepareFiles with
  | some err => .error err
  | none =>
    match compileCentralSubmission prep.compile with
    | some err => .ok (finalizeExecutionFailure (startedResult clock) err clock)
    | none =>
      match (testsPayload problem).marshal with
      | .error err => .error (.wrap "failed to marshal batched tests: " (.other err) "")
      | .ok json =>
        let size := Text.byteLength (String.ofList (json.print Json.goEscape))
        if maxTestsBytes < size then
          .error (.other ("batched tests JSON too large: " ++ Text.itoa size ++ " bytes"))
        else
          match stream with
          | .error err => .error err
          | .ok stream => .ok (collectBatched problem clock stream (startedResult clock))

end Judge
