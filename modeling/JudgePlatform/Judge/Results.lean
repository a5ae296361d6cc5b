/-
# Test results and submission results

The result records of the judge (`pkg/models/result.go`): the result of one test
case and the result of a submission, with the functions that add a detail, bring
the counts in line and derive the verdict.

* `Counted` : counts and status are those of the details; adding a detail keeps it.
* `Counted.verdict_accepted` : Accepted means that every detail has passed.
-/
import JudgePlatform.Library.GoValue

namespace Judge

/-! ## Constants -/

def submissionStatusAccepted := "Accepted"
def submissionStatusWrongAnswer := "Wrong Answer"
def submissionStatusRuntimeError := "Runtime Error"
def submissionStatusTimeLimitExceeded := "Time Limit Exceeded"
def submissionStatusCompilationError := "Compilation Error"
def submissionStatusMemoryLimitExceeded := "Memory Limit Exceeded"
def executionPathCentral := "central"
def executionPathLegacy := "legacy"
def internalErrorJudge := "judge_error"
def internalErrorWrapper := "wrapper_error"
def errorTypeTimeout := "timeout"
def errorTypeRuntime := "runtime"
def errorTypeWrongAnswer := "wrong_answer"
def errorTypeMemoryLimit := "memory_limit"

/-! ## Test results -/

/-- The result of a single test case. -/
structure TestResult where
  test : ℤ := 0
  passed : Bool := false
  ok : Bool := false
  input : GoValue := .nil
  output : GoValue := .nil
  expected : GoValue := .nil
  error : String := ""
  errorType : String := ""
  stack : String := ""
  traceback : String := ""
  stdout : String := ""
  stderr : String := ""
  exitCode : ℤ := 0
  timeMs : ℤ := 0
  memoryKB : ℤ := 0

/-- The error type that `Normalize` derives from an error text. -/
def errorTypeOf (error : String) : String :=
  if error = submissionStatusTimeLimitExceeded then errorTypeTimeout
  else if error = submissionStatusMemoryLimitExceeded then errorTypeMemoryLimit
  else if error = submissionStatusRuntimeError then errorTypeRuntime
  else errorTypeWrongAnswer

/-- `TestResult.Normalize`. -/
def TestResult.normalize (tr : TestResult) : TestResult :=
  if tr.passed ∨ tr.ok then { tr with passed := true, ok := true, errorType := "" }
  else if tr.errorType ≠ "" then tr
  else { tr with errorType := errorTypeOf tr.error }

/-! ## Submission results -/

/-- The result of a submission; times are in nanoseconds. -/
structure SubmissionResult where
  status : String := ""
  executionPath : String := ""
  internalError : String := ""
  passed : ℤ := 0
  passedCount : ℤ := 0
  total : ℤ := 0
  totalCount : ℤ := 0
  maxTimeMs : ℤ := 0
  firstFailedTest : ℤ := 0
  details : List TestResult := []
  stdout : String := ""
  stderr : String := ""
  startedAt : Option ℤ := none
  finishedAt : Option ℤ := none
  elapsedMs : ℤ := 0

def newSubmissionResult : SubmissionResult :=
  { status := submissionStatusAccepted, firstFailedTest := -1 }

/-- The loop of `UpdateStatus`: whether a runtime error and a memory error are among
the details, without a result where a timeout ends the loop. -/
def scanErrors : List TestResult → Bool → Bool → Option (Bool × Bool)
  | [], hasRuntimeError, hasMemoryLimitError => some (hasRuntimeError, hasMemoryLimitError)
  | d :: ds, hasRuntimeError, hasMemoryLimitError =>
    if d.errorType = errorTypeTimeout then none
    else if d.errorType = errorTypeMemoryLimit then scanErrors ds hasRuntimeError true
    else if d.errorType = errorTypeRuntime then scanErrors ds true hasMemoryLimitError
    else scanErrors ds hasRuntimeError hasMemoryLimitError

/-- `SubmissionResult.UpdateStatus`. -/
def SubmissionResult.updateStatus (sr : SubmissionResult) : SubmissionResult :=
  match scanErrors sr.details false false with
  | none => { sr with status := submissionStatusTimeLimitExceeded }
  | some (hasRuntimeError, hasMemoryLimitError) =>
    if hasMemoryLimitError then { sr with status := submissionStatusMemoryLimitExceeded }
    else if hasRuntimeError then { sr with status := submissionStatusRuntimeError }
    else if 0 < sr.totalCount ∧ sr.passedCount = sr.totalCount then
      { sr with status := submissionStatusAccepted }
    else if 0 < sr.totalCount then { sr with status := submissionStatusWrongAnswer }
    else sr

/-- `SubmissionResult.AddTestResult`. -/
def SubmissionResult.addTestResult (sr : SubmissionResult) (tr : TestResult) : SubmissionResult :=
  let tr := tr.normalize
  let passed := if tr.passed then sr.passed + 1 else sr.passed
  SubmissionResult.updateStatus
    { sr with
      details := sr.details ++ [tr]
      total := sr.total + 1
      totalCount := sr.total + 1
      maxTimeMs := if sr.maxTimeMs < tr.timeMs then tr.timeMs else sr.maxTimeMs
      passed := passed
      passedCount := passed
      firstFailedTest :=
        if tr.passed = false ∧ sr.firstFailedTest = -1 then tr.test else sr.firstFailedTest }

/-! ## The verdict of the details -/

/-- Whether an error type is among the details. -/
def hasErrorType (ds : List TestResult) (errorType : String) : Bool :=
  ds.any fun d => d.errorType = errorType

/-- The verdict that the details stand for. -/
def verdict (ds : List TestResult) : String :=
  if hasErrorType ds errorTypeTimeout then submissionStatusTimeLimitExceeded
  else if hasErrorType ds errorTypeMemoryLimit then submissionStatusMemoryLimitExceeded
  else if hasErrorType ds errorTypeRuntime then submissionStatusRuntimeError
  else if ds.all fun d => d.passed then submissionStatusAccepted
  else submissionStatusWrongAnswer

theorem scanErrors_timeout {ds : List TestResult} (h : hasErrorType ds errorTypeTimeout = true)
    (rt mem : Bool) : scanErrors ds rt mem = none := by
  induction ds generalizing rt mem with
  | nil => cases h
  | cons d ds ih =>
    unfold hasErrorType at h ih
    rw [List.any_cons, Bool.or_eq_true, decide_eq_true_eq] at h
    unfold scanErrors
    by_cases hd : d.errorType = errorTypeTimeout
    · rw [if_pos hd]
    · rw [if_neg hd]
      have hds := h.resolve_left hd
      split_ifs
      · exact ih hds _ _
      · exact ih hds _ _
      · exact ih hds _ _

theorem scanErrors_eq {ds : List TestResult} (h : hasErrorType ds errorTypeTimeout = false)
    (rt mem : Bool) :
    scanErrors ds rt mem =
      some (rt || hasErrorType ds errorTypeRuntime, mem || hasErrorType ds errorTypeMemoryLimit) := by
  induction ds generalizing rt mem with
  | nil => simp [scanErrors, hasErrorType]
  | cons d ds ih =>
    unfold hasErrorType at h ih ⊢
    rw [List.any_cons, Bool.or_eq_false_iff, decide_eq_false_iff_not] at h
    unfold scanErrors
    rw [if_neg h.1]
    simp only [List.any_cons]
    by_cases hmem : d.errorType = errorTypeMemoryLimit
    · rw [if_pos hmem, ih h.2, hmem]
      simp [errorTypeRuntime, errorTypeMemoryLimit]
    · rw [if_neg hmem]
      by_cases hrt : d.errorType = errorTypeRuntime
      · rw [if_pos hrt, ih h.2, hrt]
        simp [errorTypeRuntime, errorTypeMemoryLimit]
      · rw [if_neg hrt, ih h.2]
        simp [hmem, hrt]

/-- The counts of a result are those of its details, which are normalized. -/
structure CountsDetails (sr : SubmissionResult) : Prop where
  total : sr.total = sr.details.length
  totalCount : sr.totalCount = sr.total
  passed : sr.passed = (sr.details.filter fun d => d.passed).length
  passedCount : sr.passedCount = sr.passed
  normalized : ∀ d ∈ sr.details, d.normalize = d

theorem TestResult.normalize_passed (tr : TestResult) :
    tr.normalize.passed = (tr.passed || tr.ok) := by
  unfold normalize
  split_ifs with h
  · exact (by simpa using h : (tr.passed || tr.ok) = true).symm
  · simp only [not_or, Bool.not_eq_true] at h
    rw [h.1, h.2]
    rfl
  · simp only [not_or, Bool.not_eq_true] at h
    show tr.passed = _
    rw [h.1, h.2]
    rfl

theorem errorTypeOf_ne (error : String) : errorTypeOf error ≠ "" := by
  unfold errorTypeOf
  split_ifs <;> decide

/-- A normalized detail has an error type if and only if it has not passed. -/
theorem TestResult.normalize_errorType (tr : TestResult) :
    tr.normalize.errorType = "" ↔ tr.normalize.passed = true := by
  rw [normalize_passed]
  unfold normalize
  split_ifs with h hne
  · exact ⟨fun _ => by simpa using h, fun _ => rfl⟩
  · refine ⟨fun h' => absurd h' hne, fun h' => absurd (by simpa using h') h⟩
  · refine ⟨fun h' => absurd h' (errorTypeOf_ne _), fun h' => absurd (by simpa using h') h⟩

/-- A failed result with an error type stays as it is. -/
theorem TestResult.normalize_of_failed {tr : TestResult} (h : ¬(tr.passed = true ∨ tr.ok = true))
    (hne : tr.errorType ≠ "") : tr.normalize = tr := by
  unfold normalize
  rw [if_neg h, if_pos hne]

theorem TestResult.normalize_normalize (tr : TestResult) : tr.normalize.normalize = tr.normalize := by
  by_cases h : tr.passed = true ∨ tr.ok = true
  · have heq : tr.normalize = { tr with passed := true, ok := true, errorType := "" } := by
      unfold normalize
      rw [if_pos h]
    rw [heq]
    rfl
  · have hnot : ¬(tr.normalize.passed = true ∨ tr.normalize.ok = true) ∧
        tr.normalize.errorType ≠ "" := by
      unfold normalize
      rw [if_neg h]
      split_ifs with hne
      · exact ⟨h, hne⟩
      · exact ⟨h, errorTypeOf_ne _⟩
    exact normalize_of_failed hnot.1 hnot.2

/-- The verdict changes nothing but the status. -/
theorem updateStatus_eq (sr : SubmissionResult) :
    ∃ status, sr.updateStatus = { sr with status := status } := by
  unfold SubmissionResult.updateStatus
  cases scanErrors sr.details false false with
  | none => exact ⟨_, rfl⟩
  | some flags =>
    dsimp only
    split_ifs <;> exact ⟨_, rfl⟩

theorem details_updateStatus (sr : SubmissionResult) : sr.updateStatus.details = sr.details := by
  obtain ⟨status, h⟩ := updateStatus_eq sr
  rw [h]

theorem internalError_updateStatus (sr : SubmissionResult) :
    sr.updateStatus.internalError = sr.internalError := by
  obtain ⟨status, h⟩ := updateStatus_eq sr
  rw [h]

theorem CountsDetails.updateStatus {sr : SubmissionResult} (h : CountsDetails sr) :
    CountsDetails sr.updateStatus := by
  obtain ⟨status, heq⟩ := updateStatus_eq sr
  rw [heq]
  exact ⟨h.total, h.totalCount, h.passed, h.passedCount, h.normalized⟩

theorem details_addTestResult (sr : SubmissionResult) (tr : TestResult) :
    (sr.addTestResult tr).details = sr.details ++ [tr.normalize] := by
  unfold SubmissionResult.addTestResult
  rw [details_updateStatus]

theorem internalError_addTestResult (sr : SubmissionResult) (tr : TestResult) :
    (sr.addTestResult tr).internalError = sr.internalError := by
  unfold SubmissionResult.addTestResult
  rw [internalError_updateStatus]

/-- The result that `AddTestResult` derives the verdict of. -/
theorem CountsDetails.append {sr : SubmissionResult} (h : CountsDetails sr) (tr : TestResult) :
    ∃ sr', sr.addTestResult tr = sr'.updateStatus ∧ CountsDetails sr' ∧
      sr'.details = sr.details ++ [tr.normalize] := by
  refine ⟨_, rfl, ?_, rfl⟩
  constructor
  · show sr.total + 1 = ((sr.details ++ [tr.normalize]).length : ℤ)
    rw [h.total, List.length_append, List.length_singleton]
    push_cast
    rfl
  · rfl
  · show (if tr.normalize.passed = true then sr.passed + 1 else sr.passed) =
      (((sr.details ++ [tr.normalize]).filter fun d => d.passed).length : ℤ)
    rw [h.passed, List.filter_append, List.length_append]
    by_cases hp : tr.normalize.passed = true
    · rw [if_pos hp, List.filter_cons_of_pos hp]
      push_cast
      rfl
    · rw [if_neg hp, List.filter_cons_of_neg hp]
      push_cast
      rfl
  · rfl
  · intro d hd
    rcases List.mem_append.mp hd with hd | hd
    · exact h.normalized d hd
    · rw [List.mem_singleton.mp hd]
      exact tr.normalize_normalize

theorem CountsDetails.passed_eq_total {sr : SubmissionResult} (h : CountsDetails sr) :
    sr.passedCount = sr.totalCount ↔ (sr.details.all fun d => d.passed) = true := by
  rw [h.passedCount, h.totalCount, h.passed, h.total, Nat.cast_inj, List.length_filter_eq_length_iff,
    List.all_eq_true]

/-- **The verdict is that of the details.** -/
theorem CountsDetails.status_updateStatus {sr : SubmissionResult} (h : CountsDetails sr)
    (hne : sr.details ≠ []) : sr.updateStatus.status = verdict sr.details := by
  have hpos : 0 < sr.totalCount := by
    rw [h.totalCount, h.total]
    exact_mod_cast List.length_pos_of_ne_nil hne
  unfold SubmissionResult.updateStatus verdict
  cases htime : hasErrorType sr.details errorTypeTimeout with
  | true =>
    rw [scanErrors_timeout htime]
    rfl
  | false =>
    rw [scanErrors_eq htime]
    dsimp only
    simp only [Bool.false_or]
    rw [if_neg Bool.false_ne_true]
    by_cases hmem : hasErrorType sr.details errorTypeMemoryLimit = true
    · rw [if_pos hmem, if_pos hmem]
    · rw [if_neg hmem, if_neg hmem]
      by_cases hrt : hasErrorType sr.details errorTypeRuntime = true
      · rw [if_pos hrt, if_pos hrt]
      · rw [if_neg hrt, if_neg hrt]
        by_cases hall : (sr.details.all fun d => d.passed) = true
        · rw [if_pos hall, if_pos ⟨hpos, h.passed_eq_total.mpr hall⟩]
        · rw [if_neg hall, if_neg fun hc => hall (h.passed_eq_total.mp hc.2), if_pos hpos]

/-- Without details the status stays. -/
theorem CountsDetails.updateStatus_nil {sr : SubmissionResult} (h : CountsDetails sr)
    (hnil : sr.details = []) : sr.updateStatus = sr := by
  have hzero : ¬0 < sr.totalCount := by
    rw [h.totalCount, h.total, hnil]
    decide
  unfold SubmissionResult.updateStatus
  rw [hnil]
  simp only [scanErrors]
  rw [if_neg (by decide), if_neg (by decide), if_neg fun hc => hzero hc.1, if_neg hzero]

/-- Counts and status of a result are those of its details. -/
structure Counted (sr : SubmissionResult) : Prop extends CountsDetails sr where
  status : sr.status =
    if sr.details = [] then submissionStatusAccepted else verdict sr.details

theorem counted_newSubmissionResult : Counted newSubmissionResult :=
  ⟨⟨rfl, rfl, rfl, rfl, fun _ h => nomatch h⟩, rfl⟩

/-- **Adding a detail keeps counts and status.** -/
theorem Counted.addTestResult {sr : SubmissionResult} (h : Counted sr) (tr : TestResult) :
    Counted (sr.addTestResult tr) := by
  obtain ⟨sr', heq, hcounts, hdetails⟩ := h.toCountsDetails.append tr
  have hne : sr'.details ≠ [] := by rw [hdetails]; simp
  rw [heq]
  refine ⟨hcounts.updateStatus, ?_⟩
  rw [details_updateStatus, if_neg hne, hcounts.status_updateStatus hne]

theorem Counted.updateStatus {sr : SubmissionResult} (h : Counted sr) :
    Counted sr.updateStatus := by
  by_cases hnil : sr.details = []
  · rwa [h.updateStatus_nil hnil]
  · refine ⟨h.toCountsDetails.updateStatus, ?_⟩
    rw [details_updateStatus, if_neg hnil, h.status_updateStatus hnil]

/-- A passed detail that is normalized has no error type. -/
theorem Counted.errorType_of_passed {sr : SubmissionResult} (h : Counted sr) {d : TestResult}
    (hd : d ∈ sr.details) (hp : d.passed = true) : d.errorType = "" := by
  rw [← h.normalized d hd] at hp ⊢
  exact d.normalize_errorType.mpr hp

/-- **Accepted means that every detail has passed.** -/
theorem Counted.verdict_accepted {sr : SubmissionResult} (h : Counted sr) :
    verdict sr.details = submissionStatusAccepted ↔ ∀ d ∈ sr.details, d.passed = true := by
  constructor
  · intro hv
    unfold verdict at hv
    split_ifs at hv with htime hmem hrt hall
    · exact absurd hv (by decide)
    · exact absurd hv (by decide)
    · exact absurd hv (by decide)
    · exact List.all_eq_true.mp hall
    · exact absurd hv (by decide)
  · intro hall
    have hnone : ∀ t : String, t ≠ "" → ¬hasErrorType sr.details t = true := by
      intro t ht hany
      obtain ⟨d, hd, heq⟩ := List.any_eq_true.mp hany
      rw [decide_eq_true_eq, h.errorType_of_passed hd (hall d hd)] at heq
      exact ht heq.symm
    unfold verdict
    rw [if_neg (hnone _ (by decide)), if_neg (hnone _ (by decide)), if_neg (hnone _ (by decide)),
      if_pos (List.all_eq_true.mpr hall)]

end Judge
