/-
# Results as they are stored

The documents of test results and submission results, the counts and the verdict
that the judge derives again from a result it has decoded (`NormalizeCounts`), and
what `processAndStoreResults` makes of the end of an execution: the status, the
output and the result that are stored.
-/
import JudgePlatform.Api.Documents
import JudgePlatform.Judge.CentralRunner
import JudgePlatform.Library.GoRecord

namespace Judge

open GoRecord

/-! ## Documents -/

def testResultFields : List (TaggedField TestResult) := [
  always "test" (·.test) (fun tr v => { tr with test := v }) int,
  always "passed" (·.passed) (fun tr v => { tr with passed := v }) bool,
  omitEmpty "ok" (·.ok) (fun tr v => { tr with ok := v }) bool,
  omitEmpty "input" (·.input) (fun tr v => { tr with input := v }) any,
  omitEmpty "output" (·.output) (fun tr v => { tr with output := v }) any,
  omitEmpty "expected" (·.expected) (fun tr v => { tr with expected := v }) any,
  omitEmpty "error" (·.error) (fun tr v => { tr with error := v }) string,
  omitEmpty "errorType" (·.errorType) (fun tr v => { tr with errorType := v }) string,
  omitEmpty "stack" (·.stack) (fun tr v => { tr with stack := v }) string,
  omitEmpty "traceback" (·.traceback) (fun tr v => { tr with traceback := v }) string,
  omitEmpty "stdout" (·.stdout) (fun tr v => { tr with stdout := v }) string,
  omitEmpty "stderr" (·.stderr) (fun tr v => { tr with stderr := v }) string,
  omitEmpty "exitCode" (·.exitCode) (fun tr v => { tr with exitCode := v }) int,
  always "timeMs" (·.timeMs) (fun tr v => { tr with timeMs := v }) int,
  omitEmpty "memoryKb" (·.memoryKB) (fun tr v => { tr with memoryKB := v }) int]

def submissionResultFields : List (TaggedField SubmissionResult) := [
  always "status" (·.status) (fun sr v => { sr with status := v }) string,
  omitEmpty "executionPath" (·.executionPath) (fun sr v => { sr with executionPath := v }) string,
  omitEmpty "internalError" (·.internalError) (fun sr v => { sr with internalError := v }) string,
  always "passed" (·.passed) (fun sr v => { sr with passed := v }) int,
  always "passedCount" (·.passedCount) (fun sr v => { sr with passedCount := v }) int,
  always "total" (·.total) (fun sr v => { sr with total := v }) int,
  always "totalCount" (·.totalCount) (fun sr v => { sr with totalCount := v }) int,
  always "maxTimeMs" (·.maxTimeMs) (fun sr v => { sr with maxTimeMs := v }) int,
  always "firstFailedTest" (·.firstFailedTest) (fun sr v => { sr with firstFailedTest := v }) int,
  omitEmpty "details" (·.details) (fun sr v => { sr with details := v })
    (slice (record testResultFields) {}),
  omitEmpty "stdout" (·.stdout) (fun sr v => { sr with stdout := v }) string,
  omitEmpty "stderr" (·.stderr) (fun sr v => { sr with stderr := v }) string,
  omitEmpty "startedAt" (·.startedAt) (fun sr v => { sr with startedAt := v }) time,
  omitEmpty "finishedAt" (·.finishedAt) (fun sr v => { sr with finishedAt := v }) time,
  omitEmpty "elapsedMs" (·.elapsedMs) (fun sr v => { sr with elapsedMs := v }) int]

/-- The codec of `SubmissionResult`, without its own `UnmarshalJSON`. -/
def submissionResult : Codec SubmissionResult := record submissionResultFields

theorem nodup_testResultFields : (testResultFields.map TaggedField.name).Nodup := by
  decide

theorem nodup_submissionResultFields : (submissionResultFields.map TaggedField.name).Nodup := by
  decide

/-- `json.Marshal` of a result. -/
def SubmissionResult.toJson (sr : SubmissionResult) : Except String Json :=
  submissionResult.encode jsonEncoding sr

/-- The document of a result in the database; there is a null for no result. -/
def resultDocument (bson : GoValue → JsValue) : Option SubmissionResult → JsValue
  | some sr => submissionResult.encode (bsonEncoding bson) sr
  | none => .null

/-! ## Counts derived again -/

/-- The loop of `NormalizeCounts`, which ends at the first detail that has not passed:
the details, the slowest time and the first failed test. -/
def normalizeDetails : ℕ → ℤ → List TestResult → List TestResult × ℤ × ℤ
  | _, maxTimeMs, [] => ([], maxTimeMs, -1)
  | i, maxTimeMs, d :: ds =>
    let d := d.normalize
    let maxTimeMs := if maxTimeMs < d.timeMs then d.timeMs else maxTimeMs
    if d.passed then
      let r := normalizeDetails (i + 1) maxTimeMs ds
      (d :: r.1, r.2)
    else (d :: ds, maxTimeMs, if 0 < d.test then d.test else i + 1)

/-- One of two counts that stand for the same, filled from the other. -/
def backfill (a b : ℤ) : ℤ := if a = 0 then b else a

def SubmissionResult.normalizeCounts (sr : SubmissionResult) : SubmissionResult :=
  let r := normalizeDetails 0 0 sr.details
  SubmissionResult.updateStatus
    { sr with
      passedCount := backfill sr.passedCount sr.passed
      passed := backfill sr.passed sr.passedCount
      totalCount := backfill sr.totalCount sr.total
      total := backfill sr.total sr.totalCount
      details := r.1
      maxTimeMs := r.2.1
      firstFailedTest := r.2.2 }

/-- `json.Unmarshal` into a `SubmissionResult`. -/
def unmarshalResult (text : String) : Option SubmissionResult :=
  let r := GoStruct.unmarshal submissionResult.decode text {}
  if r.2 then some r.1.normalizeCounts else none

/-! ## What is stored -/

/-- The status of the submission for the status of its result. -/
def storedStatus (status : String) : Api.SubmissionStatus :=
  if status = submissionStatusAccepted then .success
  else if status = submissionStatusWrongAnswer then .fail
  else .error

theorem storedStatus_eq_success (status : String) :
    storedStatus status = .success ↔ status = submissionStatusAccepted := by
  unfold storedStatus
  split_ifs with h h'
  · exact iff_of_true rfl h
  · exact iff_of_false (by decide) h
  · exact iff_of_false (by decide) h

/-- An execution without a result of its own is not accepted. -/
theorem fallback_not_accepted (executionPath : String) (execErr : Option GoError)
    (stdout : String) :
    (fallbackResultForExecutionFailure executionPath execErr stdout).status ≠
      submissionStatusAccepted := by
  have hruntime : submissionStatusRuntimeError ≠ submissionStatusAccepted := by decide
  have hcompile : submissionStatusCompilationError ≠ submissionStatusAccepted := by decide
  have htime : submissionStatusTimeLimitExceeded ≠ submissionStatusAccepted := by decide
  have hmemory : submissionStatusMemoryLimitExceeded ≠ submissionStatusAccepted := by decide
  unfold fallbackResultForExecutionFailure
  simp only
  split_ifs with h
  · exact hruntime
  · split
    · exact hcompile
    · exact htime
    · exact hmemory
    · exact hruntime

/-- What `processAndStoreResults` stores of an execution. -/
structure Outcome where
  status : Api.SubmissionStatus
  output : String
  testResult : Option SubmissionResult

/-- What is stored of an execution that has no result of its own. -/
def failedOutcome (failure : SubmissionResult) (stderr text : String) : Outcome where
  status := .error
  output := if failure.status = submissionStatusCompilationError then stderr else text
  testResult := some failure

/-- The first part of `processAndStoreResults`; `decodeError` is the text of the error of
`json.Unmarshal`. -/
def outcome (executionPath stdout stderr : String) (execErr : Option GoError)
    (decodeError : String) : Outcome :=
  if stdout ≠ "" then
    match unmarshalResult stdout with
    | some result =>
      let result := { result with executionPath := executionPath }.normalizeCounts
      ⟨storedStatus result.status, stdout, some result⟩
    | none =>
      failedOutcome (fallbackResultForExecutionFailure executionPath execErr stdout) stderr
        ("Invalid judge output: " ++ decodeError ++ "\nStdout: " ++ stdout ++
          match execErr with
          | some err => "\nExecution Error: " ++ err.text ++ "\nStderr: " ++ stderr
          | none => "")
  else
    match execErr with
    | some err =>
      failedOutcome (fallbackResultForExecutionFailure executionPath execErr stdout) stderr
        ("Execution Error: " ++ err.text ++ "\nStderr: " ++ stderr)
    | none => ⟨.error, stderr, none⟩

end Judge
