/-
# Agreement of the two ways to run a submission

The per-test loop and the batched loop of the central runner classify the same
events in their own ways.  Given the same outcome of each test, they give the same
verdicts exactly when no difference between the classifications comes to bear:
the batched loop does not look for memory errors in tracebacks, does not know the
exit code of a process killed for memory, and does not bound the user's output.

* `perTestVerdict`, `batchedVerdict` : the verdict that each way gives to an outcome.
* `paths_agree_iff` : when the two ways agree on all tests up to the first abnormal end.
* `paths_agree_fails` : a test that is killed for memory.
-/
import JudgePlatform.Judge.BatchedSoundness

namespace Judge

/-! ## Outcomes -/

/-- The abnormal ends of the process that runs a test. -/
inductive AbnormalEnd where
  | timeLimit
  | exit (code : ℤ) (nonzero : code ≠ 0)

/-- The outcome of one test. -/
inductive TestOutcome where
  | value (output : GoValue)
  | error (text traceback : String)
  | abnormal (ending : AbnormalEnd)

def TestOutcome.reported : TestOutcome → Bool
  | .abnormal _ => false
  | _ => true

/-- How the executor sees an abnormal end; `timeout` is the text of the time limit. -/
def AbnormalEnd.execEnd (timeout : String) : AbnormalEnd → ExecEnd
  | .timeLimit => .timedOut timeout
  | .exit code _ => .exited code

/-- The executor's answer to the exec of one test stands for an outcome. -/
def Returns (answer : ExecAnswer) : TestOutcome → Prop
  | .value output =>
    answer.err = none ∧
      ∃ out, (parseSingleTestOutput (Text.trimSpace answer.stdout)
        (Text.trimSpace answer.stderr)).1 = some out ∧ out.error = "" ∧ out.output = output
  | .error text traceback =>
    answer.err = none ∧ text ≠ "" ∧
      ∃ out, (parseSingleTestOutput (Text.trimSpace answer.stdout)
        (Text.trimSpace answer.stderr)).1 = some out ∧ out.error = text ∧
        out.traceback = traceback
  | .abnormal ending => ∃ timeout, answer.err = (execWaitResult (ending.execEnd timeout)).2

/-- A judge line stands for the outcome of test number `i + 1`. -/
def ReportsLine (i : ℕ) (out : BatchedTestExecOutput) : TestOutcome → Prop
  | .value output => out.test = (i : ℤ) + 1 ∧ out.error = "" ∧ out.output = output
  | .error text traceback =>
    out.test = (i : ℤ) + 1 ∧ text ≠ "" ∧ out.error = text ∧ out.traceback = traceback
  | .abnormal _ => False

/-- Judge lines report the outcomes from test number `i + 1` on, in order, up to the
first abnormal end. -/
def LinesReport : ℕ → List BatchedTestExecOutput → List TestOutcome → Prop
  | _, [], [] => True
  | _, [], .abnormal _ :: _ => True
  | i, out :: outs, o :: os => ReportsLine i out o ∧ LinesReport (i + 1) outs os
  | _, _, _ => False

/-- The process of a batched run ends in the first abnormal way. -/
def processEnd (timeout : String) : List TestOutcome → ExecEnd
  | [] => .exited 0
  | .abnormal ending :: _ => ending.execEnd timeout
  | _ :: os => processEnd timeout os

/-- The execs of the per-test way and the stream of the batched way have the same outcomes. -/
structure SameOutcomes (problem : Problem) (outcomes : List TestOutcome) (run : ℕ → ExecAnswer)
    (stream : ExecStream) : Prop where
  length : outcomes.length = problem.testCases.length
  returns : ∀ (i : ℕ) (o : TestOutcome), outcomes[i]? = some o → Returns (run i) o
  stdoutRead : ∃ rawStdout, stream.stdout = .ok rawStdout
  noFatal : ∀ out ∈ judgeLines stream.stderr, out.fatal = ""
  lines : LinesReport 0 ((judgeLines stream.stderr).filter (inRange problem.testCases.length))
    outcomes
  ending : ∃ timeout, stream.wait = execWaitResult (processEnd timeout outcomes)

/-- No test before number `i + 1` ends abnormally. -/
def Reached (outcomes : List TestOutcome) (i : ℕ) : Prop :=
  ∀ j < i, ∀ o, outcomes[j]? = some o → o.reported = true

/-- The passed flag and the error type that a result gives to a test. -/
def verdictOf (result : SubmissionResult) (test : ℤ) : Option (Bool × String) :=
  (result.details.find? fun d => d.test = test).map fun d => (d.passed, d.errorType)

/-- Both ways give a result, the same verdict to each test up to the first abnormal end,
and without abnormal ends the same status and internal error. -/
structure PathsAgree (outcomes : List TestOutcome) (perTest batched : SubmissionResult) :
    Prop where
  verdicts : ∀ i < outcomes.length, Reached outcomes i →
    ∃ v, verdictOf perTest (i + 1) = some v ∧ verdictOf batched (i + 1) = some v
  summary : (∀ o ∈ outcomes, o.reported = true) →
    perTest.status = batched.status ∧ perTest.internalError = batched.internalError

/-! ## The verdicts on an outcome -/

/-- The user's output is longer than what is stored of it. -/
def overflows (stdout : String) : Bool :=
  (truncateString (Text.trimSpace stdout) maxTestOutputBytes).2

/-- The verdict on a reported output. -/
def outputVerdict (problem : Problem) (tc : TestCase) (output : GoValue) : Bool × String :=
  let passed := compare tc.expected output problem.compareConfig
  (passed, if passed then "" else errorTypeWrongAnswer)

def perTestVerdict (problem : Problem) (tc : TestCase) (stdout : String) :
    TestOutcome → Bool × String
  | .value output =>
    if overflows stdout then (false, errorTypeWrongAnswer) else outputVerdict problem tc output
  | .error text traceback =>
    if overflows stdout then (false, errorTypeWrongAnswer)
    else
      (false, if mentionsOutOfMemory text ∨ mentionsOutOfMemory traceback then errorTypeMemoryLimit
        else errorTypeRuntime)
  | .abnormal .timeLimit => (false, errorTypeTimeout)
  | .abnormal (.exit code _) =>
    (false, if code = 137 then errorTypeMemoryLimit else errorTypeRuntime)

def batchedVerdict (problem : Problem) (tc : TestCase) : TestOutcome → Bool × String
  | .value output => outputVerdict problem tc output
  | .error text _ =>
    (false, if mentionsOutOfMemory text then errorTypeMemoryLimit else errorTypeRuntime)
  | .abnormal .timeLimit => (false, errorTypeTimeout)
  | .abnormal (.exit _ _) => (false, errorTypeRuntime)

/-- What keeps the two classifications of an outcome together. -/
def Harmless (problem : Problem) (tc : TestCase) (stdout : String) : TestOutcome → Prop
  | .value output =>
    overflows stdout = true → compare tc.expected output problem.compareConfig = false
  | .error text traceback =>
    overflows stdout = false ∧
      (mentionsOutOfMemory traceback = true → mentionsOutOfMemory text = true)
  | .abnormal .timeLimit => True
  | .abnormal (.exit code _) => code ≠ 137

theorem verdicts_eq_iff (problem : Problem) (tc : TestCase) (stdout : String) (o : TestOutcome) :
    perTestVerdict problem tc stdout o = batchedVerdict problem tc o ↔
      Harmless problem tc stdout o := by
  cases o with
  | value output =>
    unfold perTestVerdict batchedVerdict Harmless outputVerdict
    cases hover : overflows stdout with
    | false => simp
    | true =>
      cases hcmp : compare tc.expected output problem.compareConfig with
      | false => simp [hcmp]
      | true => simp [hcmp]
  | error text traceback =>
    unfold perTestVerdict batchedVerdict Harmless
    cases hover : overflows stdout with
    | true =>
      cases htext : mentionsOutOfMemory text <;>
        simp [htext, errorTypeWrongAnswer, errorTypeMemoryLimit, errorTypeRuntime]
    | false =>
      cases htext : mentionsOutOfMemory text <;> cases htb : mentionsOutOfMemory traceback <;>
        simp [htext, htb, errorTypeMemoryLimit, errorTypeRuntime]
  | abnormal ending =>
    cases ending with
    | timeLimit => exact ⟨fun _ => trivial, fun _ => rfl⟩
    | exit code nonzero =>
      unfold perTestVerdict batchedVerdict Harmless
      by_cases hcode : code = 137
      · simp [hcode, errorTypeMemoryLimit, errorTypeRuntime]
      · simp [hcode]

/-! ## Texts of the executor's errors -/
/-! ## The per-test way -/

/-- The error of a process that has exited with a code of no special meaning. -/
theorem text_exit (code : ℤ) :
    (GoError.execution .errRuntimeError ("exit code " ++ Text.itoa code) code).text =
      "runtime error: exit code " ++ Text.itoa code := by
  have hne : "exit code " ++ Text.itoa code ≠ "" := by
    intro h
    have := congrArg String.toList h
    rw [String.toList_append] at this
    exact absurd this (by simp)
  unfold GoError.text
  rw [if_pos hne, ← String.append_assoc]
  rfl

theorem row_markRunError_timeLimit (timeout stderrForLog : String) (tr : TestResult) :
    row (markRunError (.execution .errTimeLimitExceeded ("execution timed out after " ++ timeout)
      (-1)) stderrForLog tr).1.normalize = (tr.test, false, errorTypeTimeout) := by
  unfold markRunError
  rw [if_pos (Or.inl (by simp [GoError.is]))]
  exact row_markTestFailed tr submissionStatusTimeLimitExceeded

theorem row_markRunError_memory (stderrForLog : String) (tr : TestResult) :
    row (markRunError (.execution .errMemoryLimitExceeded "process killed (possibly OOM)" 137)
      stderrForLog tr).1.normalize = (tr.test, false, errorTypeMemoryLimit) := by
  unfold markRunError
  rw [if_neg (by decide +kernel), if_pos (Or.inl (by simp [GoError.is]))]
  exact row_markTestFailed tr submissionStatusMemoryLimitExceeded

theorem row_markRunError_exit (code : ℤ) (stderrForLog : String) (tr : TestResult) :
    row (markRunError (.execution .errRuntimeError ("exit code " ++ Text.itoa code) code)
      stderrForLog tr).1.normalize = (tr.test, false, errorTypeRuntime) := by
  have htext := text_exit code
  have hdeadline : Text.contains (Text.toLower ("runtime error: exit code " ++ Text.itoa code))
      "deadline exceeded" = false :=
    Text.contains_append_itoa (w := "deadline exceede".toList) (c := 'd') code rfl (by decide)
      (by decide) (by decide +kernel)
  have htimed : Text.contains (Text.toLower ("runtime error: exit code " ++ Text.itoa code))
      "timed out" = false :=
    Text.contains_append_itoa (w := "timed ou".toList) (c := 't') code rfl (by decide)
      (by decide) (by decide +kernel)
  have hmemory : Text.contains (Text.toLower ("runtime error: exit code " ++ Text.itoa code))
      "memory limit exceeded" = false :=
    Text.contains_append_itoa (w := "memory limit exceede".toList) (c := 'd') code rfl (by decide)
      (by decide) (by decide +kernel)
  unfold markRunError
  rw [htext]
  dsimp only
  rw [hdeadline, htimed, hmemory, if_neg (by simp [GoError.is]), if_neg (by simp [GoError.is])]
  dsimp only
  split_ifs
  · exact row_failed rfl rfl (errorTypeOfReason_ne submissionStatusRuntimeError)
  · exact row_markTestFailed tr submissionStatusRuntimeError

/-- The per-test loop gives an abnormal end its verdict. -/
theorem row_markRunError (problem : Problem) (tc : TestCase) (stdout : String)
    (ending : AbnormalEnd) (timeout : String) :
    ∃ err, (execWaitResult (ending.execEnd timeout)).2 = some err ∧
      ∀ stderrForLog tr, row (markRunError err stderrForLog tr).1.normalize =
        (tr.test, perTestVerdict problem tc stdout (.abnormal ending)) := by
  cases ending with
  | timeLimit => exact ⟨_, rfl, row_markRunError_timeLimit timeout⟩
  | exit code nonzero =>
    unfold AbnormalEnd.execEnd execWaitResult perTestVerdict
    dsimp only
    rw [if_pos nonzero]
    by_cases hcode : code = 137
    · rw [if_pos hcode, if_pos hcode, hcode]
      exact ⟨_, rfl, row_markRunError_memory⟩
    · rw [if_neg hcode, if_neg hcode]
      exact ⟨_, rfl, row_markRunError_exit code⟩

theorem row_judgeReport_truncated (problem : Problem) (tc : TestCase)
    (stdout stderr stderrForLog : String) (tr : TestResult) :
    row (judgeReport problem tc stdout stderr stderrForLog true tr).1.normalize =
        (tr.test, false, errorTypeWrongAnswer) ∧
      (judgeReport problem tc stdout stderr stderrForLog true tr).2 = none :=
  ⟨row_failed rfl rfl (errorTypeOfReason_ne submissionStatusWrongAnswer), rfl⟩

theorem row_judgeReport_error {stdout stderr : String} {out : SingleTestExecOutput}
    (hparse : (parseSingleTestOutput stdout stderr).1 = some out) (herr : out.error ≠ "")
    (problem : Problem) (tc : TestCase) (stderrForLog : String) (tr : TestResult) :
    row (judgeReport problem tc stdout stderr stderrForLog false tr).1.normalize =
        (tr.test, false,
          if mentionsOutOfMemory out.error ∨ mentionsOutOfMemory out.traceback then
            errorTypeMemoryLimit
          else errorTypeRuntime) ∧
      (judgeReport problem tc stdout stderr stderrForLog false tr).2 = none := by
  unfold judgeReport
  rw [if_neg Bool.false_ne_true]
  cases hp : parseSingleTestOutput stdout stderr with
  | mk o userLogs =>
    rw [hp] at hparse
    obtain rfl : o = some out := hparse
    dsimp only
    rw [if_pos herr]
    refine ⟨?_, rfl⟩
    split_ifs
    · exact row_markTestFailed _ submissionStatusMemoryLimitExceeded
    · exact row_markTestFailed _ submissionStatusRuntimeError

theorem row_judgeReport_value {stdout stderr : String} {out : SingleTestExecOutput}
    (hparse : (parseSingleTestOutput stdout stderr).1 = some out) (herr : out.error = "")
    (problem : Problem) (tc : TestCase) (stderrForLog : String) (tr : TestResult) :
    row (judgeReport problem tc stdout stderr stderrForLog false tr).1.normalize =
        (tr.test, outputVerdict problem tc out.output) ∧
      (judgeReport problem tc stdout stderr stderrForLog false tr).2 = none := by
  unfold judgeReport
  rw [if_neg Bool.false_ne_true]
  cases hp : parseSingleTestOutput stdout stderr with
  | mk o userLogs =>
    rw [hp] at hparse
    obtain rfl : o = some out := hparse
    dsimp only
    rw [if_neg (not_not.mpr herr)]
    exact ⟨row_judgeOutput problem tc out.output _, rfl⟩

/-- **One turn of the per-test loop** gives an outcome its verdict. -/
theorem row_perTestResult {problem : Problem} {i : ℕ} {tc : TestCase} {answer : ExecAnswer}
    {o : TestOutcome} {json : Json} (hm : tc.payload.marshal = .ok json)
    (hr : Returns answer o) :
    row (perTestResult problem i tc answer).1.normalize =
        ((i : ℤ) + 1, perTestVerdict problem tc answer.stdout o) ∧
      (o.reported = true → (perTestResult problem i tc answer).2 = none) := by
  unfold perTestResult
  rw [hm]
  dsimp only
  cases o with
  | value output =>
    obtain ⟨herr, out, hparse, hout, rfl⟩ := hr
    unfold perTestVerdict overflows
    rw [herr]
    dsimp only
    cases (truncateString (Text.trimSpace answer.stdout) maxTestOutputBytes).2 with
    | true =>
      obtain ⟨hrow, hint⟩ := row_judgeReport_truncated problem tc _ _ _ _
      exact ⟨hrow, fun _ => hint⟩
    | false =>
      obtain ⟨hrow, hint⟩ := row_judgeReport_value hparse hout problem tc _ _
      exact ⟨hrow, fun _ => hint⟩
  | error text traceback =>
    obtain ⟨herr, hne, out, hparse, rfl, rfl⟩ := hr
    unfold perTestVerdict overflows
    rw [herr]
    dsimp only
    cases (truncateString (Text.trimSpace answer.stdout) maxTestOutputBytes).2 with
    | true =>
      obtain ⟨hrow, hint⟩ := row_judgeReport_truncated problem tc _ _ _ _
      exact ⟨hrow, fun _ => hint⟩
    | false =>
      obtain ⟨hrow, hint⟩ := row_judgeReport_error hparse hne problem tc _ _
      exact ⟨hrow, fun _ => hint⟩
  | abnormal ending =>
    obtain ⟨timeout, herr⟩ := hr
    obtain ⟨err, hend, hrow⟩ := row_markRunError problem tc answer.stdout ending timeout
    rw [herr, hend]
    exact ⟨hrow _ _, fun h => by cases h⟩

/-- **The per-test loop**: one row for each test, in order. -/
theorem perTestLoop_spec (problem : Problem) (clock : Clock) (run : ℕ → ExecAnswer) (i : ℕ)
    (tcs : List TestCase) (result : SubmissionResult) :
    let r := perTestLoop problem clock run i tcs result
    rows r = rows result ++
        (tcs.zipIdx i).map (fun t => row (perTestResult problem t.2 t.1 (run t.2)).1.normalize) ∧
      (Counted result → Counted r) ∧
      ((∀ t ∈ tcs.zipIdx i, (perTestResult problem t.2 t.1 (run t.2)).2 = none) →
        r.internalError = result.internalError) := by
  induction tcs generalizing i result with
  | nil => exact ⟨(List.append_nil _).symm, id, fun _ => rfl⟩
  | cons tc tcs ih =>
    dsimp only at ih ⊢
    unfold perTestLoop
    set turn := perTestResult problem i tc (run i) with hturn
    set result' : SubmissionResult :=
      { result with internalError := turn.2.getD result.internalError }
    obtain ⟨hrows, hcount, hint⟩ := ih (i + 1) (result'.addTestResult
      { turn.1 with timeMs := clock.testMs result'.details.length })
    rw [List.zipIdx_cons]
    refine ⟨?_, fun h => ?_, fun h => ?_⟩
    · rw [hrows, rows_addTestResult, List.append_assoc]
      rfl
    · have hresult' : Counted result' := h.of_eq rfl rfl
      exact hcount (hresult'.addTestResult _)
    · rw [List.forall_mem_cons] at h
      rw [hint h.2, internalError_addTestResult]
      show turn.2.getD result.internalError = _
      rw [h.1]
      rfl

/-- The rows of a per-test run. -/
def perTestRows (problem : Problem) (run : ℕ → ExecAnswer) : List (ℤ × Bool × String) :=
  problem.testCases.zipIdx.map fun t => row (perTestResult problem t.2 t.1 (run t.2)).1.normalize

theorem perTest_spec (problem : Problem) (clock : Clock) {prep : Preparation}
    (run : ℕ → ExecAnswer) (hprepare : prep.prepareFiles = none)
    (hcompile : compileCentralSubmission prep.compile = none) :
    ∃ result, runSubmissionCentralPerTest problem clock prep run = .ok result ∧
      rows result = perTestRows problem run ∧ Counted result ∧
      ((∀ t ∈ problem.testCases.zipIdx, (perTestResult problem t.2 t.1 (run t.2)).2 = none) →
        result.internalError = "") := by
  obtain ⟨hrows, hcount, hint⟩ :=
    perTestLoop_spec problem clock run 0 problem.testCases (startedResult clock)
  obtain ⟨hrows', hcount', hint'⟩ := finish_updateStatus
    (perTestLoop problem clock run 0 problem.testCases (startedResult clock)) clock
  refine ⟨_, ?_, hrows'.trans hrows, hcount' (hcount (counted_startedResult clock)),
    fun h => hint'.trans (hint h)⟩
  unfold runSubmissionCentralPerTest
  rw [hprepare, hcompile]

theorem eq_perTestLoop {problem : Problem} {clock : Clock} {prep : Preparation}
    {run : ℕ → ExecAnswer} {result : SubmissionResult} (hprepare : prep.prepareFiles = none)
    (hcompile : compileCentralSubmission prep.compile = none)
    (hrun : runSubmissionCentralPerTest problem clock prep run = .ok result) :
    result = ((perTestLoop problem clock run 0 problem.testCases (startedResult clock)).finish
      clock).updateStatus := by
  unfold runSubmissionCentralPerTest at hrun
  rw [hprepare, hcompile] at hrun
  exact (Except.ok.inj hrun).symm

/-! ## The batched way -/

theorem linesReport_get {k : ℕ} {outs : List BatchedTestExecOutput} {os : List TestOutcome}
    (h : LinesReport k outs os) {i : ℕ} {o : TestOutcome} (ho : os[i]? = some o)
    (hreach : Reached os i) :
    (∃ out, outs[i]? = some out ∧ ReportsLine (k + i) out o) ∨
      (o.reported = false ∧ outs.length = i) := by
  induction os generalizing k outs i with
  | nil => cases ho
  | cons o' os ih =>
    cases outs with
    | nil =>
      cases o' with
      | abnormal ending =>
        cases i with
        | zero =>
          obtain rfl := Option.some.inj ho
          exact Or.inr ⟨rfl, rfl⟩
        | succ i => exact absurd (hreach 0 (by omega) _ rfl) Bool.false_ne_true
      | value output => exact h.elim
      | error text traceback => exact h.elim
    | cons out outs =>
      obtain ⟨hline, hrest⟩ := h
      cases i with
      | zero =>
        obtain rfl := Option.some.inj ho
        exact Or.inl ⟨out, rfl, hline⟩
      | succ i =>
        have hreach' : Reached os i := fun j hj o hjo => hreach (j + 1) (by omega) o hjo
        rcases ih hrest ho hreach' with ⟨out', hout', hline'⟩ | ⟨hrep, hlen⟩
        · refine Or.inl ⟨out', hout', ?_⟩
          rwa [show k + (i + 1) = k + 1 + i from by omega]
        · exact Or.inr ⟨hrep, by rw [List.length_cons, hlen]⟩

theorem reportsLine_test {i : ℕ} {out : BatchedTestExecOutput} {o : TestOutcome}
    (h : ReportsLine i out o) : out.test = (i : ℤ) + 1 := by
  cases o with
  | value output => exact h.1
  | error text traceback => exact h.1
  | abnormal ending => exact h.elim

theorem linesReport_tests {k : ℕ} {outs : List BatchedTestExecOutput} {os : List TestOutcome}
    (h : LinesReport k outs os) {j : ℕ} {out : BatchedTestExecOutput} (hj : outs[j]? = some out) :
    out.test = (k : ℤ) + j + 1 := by
  induction os generalizing k outs j with
  | nil =>
    cases outs with
    | nil => cases hj
    | cons out' outs => exact h.elim
  | cons o os ih =>
    cases outs with
    | nil => cases hj
    | cons out' outs =>
      obtain ⟨hline, hrest⟩ := h
      cases j with
      | zero =>
        obtain rfl := Option.some.inj hj
        rw [reportsLine_test hline]
        push_cast
        ring
      | succ j =>
        rw [ih hrest hj]
        push_cast
        ring

theorem linesReport_length {k : ℕ} {outs : List BatchedTestExecOutput} {os : List TestOutcome}
    (h : LinesReport k outs os) (hall : ∀ o ∈ os, o.reported = true) :
    outs.length = os.length := by
  induction os generalizing k outs with
  | nil =>
    cases outs with
    | nil => rfl
    | cons out outs => exact h.elim
  | cons o os ih =>
    rw [List.forall_mem_cons] at hall
    cases outs with
    | nil =>
      cases o with
      | abnormal ending => exact absurd hall.1 Bool.false_ne_true
      | value output => exact h.elim
      | error text traceback => exact h.elim
    | cons out outs => rw [List.length_cons, List.length_cons, ih h.2 hall.2]

theorem processEnd_abnormal {os : List TestOutcome} {i : ℕ} {ending : AbnormalEnd}
    (ho : os[i]? = some (.abnormal ending)) (hreach : Reached os i) (timeout : String) :
    processEnd timeout os = ending.execEnd timeout := by
  induction os generalizing i with
  | nil => cases ho
  | cons o os ih =>
    cases i with
    | zero =>
      obtain rfl := Option.some.inj ho
      rfl
    | succ i =>
      have hreach' : Reached os i := fun j hj o hjo => hreach (j + 1) (by omega) o hjo
      cases o with
      | abnormal ending' => exact absurd (hreach 0 (by omega) _ rfl) Bool.false_ne_true
      | value output => exact ih ho hreach'
      | error text traceback => exact ih ho hreach'

theorem processEnd_reported {os : List TestOutcome} (hall : ∀ o ∈ os, o.reported = true)
    (timeout : String) : processEnd timeout os = .exited 0 := by
  induction os with
  | nil => rfl
  | cons o os ih =>
    rw [List.forall_mem_cons] at hall
    cases o with
    | abnormal ending => exact absurd hall.1 Bool.false_ne_true
    | value output => exact ih hall.2
    | error text traceback => exact ih hall.2

/-- The text that the batched way makes of an exit code. -/
theorem text_batchedExit (code : ℤ) :
    (GoError.wrap "execution command failed: "
      (.execution .errRuntimeError ("exit code " ++ Text.itoa code) code) "").text =
      "execution command failed: runtime error: exit code " ++ Text.itoa code := by
  rw [GoError.text, text_exit, String.append_empty, ← String.append_assoc]
  rfl

theorem remainingReason_timeLimit (timeout : String) (allProcessed : Bool) :
    remainingReason none (batchedRunError (execWaitResult (.timedOut timeout))) allProcessed =
      ("Time Limit Exceeded", none) := by
  have htext : (GoError.wrap "execution command failed: " (.execution .errTimeLimitExceeded
      ("execution timed out after " ++ timeout) (-1)) "").text =
      "execution command failed: time limit exceeded: execution timed out after " ++ timeout := by
    have hne : "execution timed out after " ++ timeout ≠ "" := by
      intro h
      have := congrArg String.toList h
      rw [String.toList_append] at this
      exact absurd this (by simp)
    rw [GoError.text, GoError.text, if_pos hne, String.append_empty, ← String.append_assoc,
      ← String.append_assoc]
    rfl
  have htimed : Text.contains (Text.toLower
      ("execution command failed: time limit exceeded: execution timed out after " ++ timeout))
      "timed out" = true := by
    rw [Text.toLower_append]
    exact Text.contains_append (Or.inl (by decide +kernel))
  unfold remainingReason execWaitResult batchedRunError
  dsimp only
  rw [htext, htimed, if_neg (by simp), if_pos (Or.inl rfl)]

theorem remainingReason_exit {code : ℤ} (hcode : code ≠ 0) (allProcessed : Bool) :
    remainingReason none (batchedRunError (execWaitResult (.exited code))) allProcessed =
      ("Runtime Error", some internalErrorWrapper) := by
  unfold execWaitResult
  dsimp only
  rw [if_pos hcode]
  by_cases h137 : code = 137
  · rw [if_pos h137, h137]
    unfold remainingReason batchedRunError
    dsimp only
    rw [if_neg (by simp), if_neg (by decide +kernel)]
  · have htimed : Text.contains (Text.toLower
        ("execution command failed: runtime error: exit code " ++ Text.itoa code))
        "timed out" = false :=
      Text.contains_append_itoa (w := "timed ou".toList) (c := 't') code rfl (by decide)
        (by decide) (by decide +kernel)
    have hdeadline : Text.contains (Text.toLower
        ("execution command failed: runtime error: exit code " ++ Text.itoa code))
        "deadline exceeded" = false :=
      Text.contains_append_itoa (w := "deadline exceede".toList) (c := 'd') code rfl (by decide)
        (by decide) (by decide +kernel)
    rw [if_neg h137]
    unfold remainingReason batchedRunError
    dsimp only
    rw [text_batchedExit, htimed, hdeadline, if_neg (by simp), if_neg (by simp)]

/-- The missing tests of a batched run get the verdict of the abnormal end. -/
theorem errorType_remainingReason (problem : Problem) (tc : TestCase) (ending : AbnormalEnd)
    (timeout : String) (allProcessed : Bool) :
    (false, errorTypeOfReason (remainingReason none
      (batchedRunError (execWaitResult (ending.execEnd timeout))) allProcessed).1) =
      batchedVerdict problem tc (.abnormal ending) := by
  cases ending with
  | timeLimit =>
    rw [show AbnormalEnd.timeLimit.execEnd timeout = .timedOut timeout from rfl,
      remainingReason_timeLimit]
    rfl
  | exit code nonzero =>
    rw [show (AbnormalEnd.exit code nonzero).execEnd timeout = .exited code from rfl,
      remainingReason_exit nonzero]
    rfl

/-- A reported line gets the verdict of its outcome. -/
theorem lineRow_of_reportsLine {problem : Problem} {i : ℕ} {tc : TestCase}
    {out : BatchedTestExecOutput} {o : TestOutcome} (htc : problem.testCases[i]? = some tc)
    (h : ReportsLine i out o) :
    lineRow problem out = ((i : ℤ) + 1, batchedVerdict problem tc o) := by
  have htest := reportsLine_test h
  rw [lineRow, row_batchedResult, htest]
  cases o with
  | value output =>
    obtain ⟨-, herr, rfl⟩ := h
    have hpass : passing problem out =
        compare tc.expected out.output problem.compareConfig := by
      rw [Bool.eq_iff_iff, passing_iff htc htest]
      exact ⟨fun h => h.2, fun h => ⟨herr, h⟩⟩
    rw [hpass, if_neg (not_not.mpr herr)]
    rfl
  | error text traceback =>
    obtain ⟨-, hne, rfl, -⟩ := h
    have hpass : passing problem out = false := by
      rw [Bool.eq_false_iff, Ne, passing_iff htc htest]
      exact fun h => hne h.1
    rw [hpass, if_pos hne]
    rfl
  | abnormal ending => exact h.elim

/-! ## Numbered rows -/

/-- The rows are about the tests `k + 1, k + 2, …`. -/
def Numbered (k : ℕ) (l : List (ℤ × Bool × String)) : Prop :=
  ∀ (j : ℕ) (r : ℤ × Bool × String), l[j]? = some r → r.1 = (k : ℤ) + j + 1

theorem find_numbered {k : ℕ} {l : List (ℤ × Bool × String)} (h : Numbered k l) (i : ℕ) :
    (l.find? fun r => r.1 = (k : ℤ) + i + 1) = l[i]? := by
  induction l generalizing k i with
  | nil => rfl
  | cons r l ih =>
    have hr : r.1 = (k : ℤ) + (0 : ℕ) + 1 := h 0 r rfl
    have htail : Numbered (k + 1) l := by
      intro j r' hj
      rw [h (j + 1) r' hj]
      push_cast
      ring
    cases i with
    | zero =>
      rw [List.find?_cons_of_pos (by rw [hr]; simp)]
      rfl
    | succ i =>
      have hne : ¬r.1 = (k : ℤ) + ((i + 1 : ℕ) : ℤ) + 1 := by
        rw [hr]
        omega
      rw [List.find?_cons_of_neg (by simpa only [decide_eq_true_eq] using hne),
        List.getElem?_cons_succ, ← ih htail i]
      congr 1
      funext r'
      rw [show (k : ℤ) + ((i + 1 : ℕ) : ℤ) + 1 = ((k + 1 : ℕ) : ℤ) + i + 1 from by push_cast; ring]

theorem verdictOf_eq {result : SubmissionResult} (h : Numbered 0 (rows result)) (i : ℕ) :
    verdictOf result ((i : ℤ) + 1) = (rows result)[i]?.map Prod.snd := by
  rw [← find_numbered h i]
  unfold verdictOf rows
  rw [List.find?_map, Option.map_map]
  have hpred : (fun d : TestResult => decide (d.test = (i : ℤ) + 1)) =
      (fun r : ℤ × Bool × String => decide (r.1 = ((0 : ℕ) : ℤ) + i + 1)) ∘ row := by
    funext d
    show decide (d.test = (i : ℤ) + 1) = decide (d.test = ((0 : ℕ) : ℤ) + i + 1)
    rw [Nat.cast_zero, zero_add]
  rw [hpred]
  rfl

/-- The verdict is read from the rows. -/
theorem verdict_congr {ds ds' : List TestResult} (h : ds.map row = ds'.map row) :
    verdict ds = verdict ds' := by
  have hany : ∀ t, hasErrorType ds t = hasErrorType ds' t := by
    intro t
    have hrow : ∀ l : List TestResult,
        hasErrorType l t = (l.map row).any fun r => r.2.2 = t := by
      intro l
      rw [List.any_map]
      rfl
    rw [hrow, hrow, h]
  have hall : (ds.all fun d => d.passed) = ds'.all fun d => d.passed := by
    have hrow : ∀ l : List TestResult, (l.all fun d => d.passed) = (l.map row).all fun r => r.2.1 := by
      intro l
      rw [List.all_map]
      rfl
    rw [hrow, hrow, h]
  unfold verdict
  rw [hany, hany, hany, hall]

theorem status_congr {r r' : SubmissionResult} (hr : Counted r) (hr' : Counted r')
    (h : rows r = rows r') : r.status = r'.status := by
  have hnil : r.details = [] ↔ r'.details = [] := by
    unfold rows at h
    rw [← List.map_eq_nil_iff (f := row), h, List.map_eq_nil_iff]
  rw [hr.status, hr'.status, verdict_congr h]
  simp only [hnil]

/-! ## Agreement -/

section Agreement

variable {problem : Problem} {clock : Clock} {prep : Preparation} {run : ℕ → ExecAnswer}
  {stream : ExecStream} {outcomes : List TestOutcome}

theorem fits_of_run (hprepare : prep.prepareFiles = none)
    (hcompile : compileCentralSubmission prep.compile = none) {result : SubmissionResult}
    (hrun : runSubmissionCentralBatched problem clock prep (.ok stream) = .ok result) :
    payloadFits problem = true := by
  unfold runSubmissionCentralBatched at hrun
  rw [hprepare, hcompile] at hrun
  dsimp only at hrun
  unfold payloadFits
  cases hm : (testsPayload problem).marshal with
  | error err =>
    rw [hm] at hrun
    cases hrun
  | ok json =>
    rw [hm] at hrun
    dsimp only at hrun ⊢
    split_ifs at hrun with hsize
    rw [decide_eq_true_eq]
    omega

/-- When the tests JSON of a batched run can be marshalled, so can each test's. -/
theorem marshal_of_fits (h : payloadFits problem = true) {tc : TestCase}
    (htc : tc ∈ problem.testCases) : ∃ json, tc.payload.marshal = .ok json := by
  unfold payloadFits testsPayload at h
  rw [GoValue.marshal] at h
  cases hc : GoValue.collect (GoValue.marshalElements (problem.testCases.map TestCase.payload)) with
  | error e =>
    rw [hc] at h
    cases h
  | ok js =>
    have hmem : tc.payload.marshal ∈ (problem.testCases.map TestCase.payload).map GoValue.marshal :=
      List.mem_map_of_mem (List.mem_map_of_mem htc)
    rw [← GoValue.marshalElements_eq, GoValue.eq_of_collect hc] at hmem
    obtain ⟨json, -, heq⟩ := List.mem_map.mp hmem
    exact ⟨json, heq.symm⟩

theorem SameOutcomes.recordedLines (h : SameOutcomes problem outcomes run stream) :
    recordedLines problem stream =
      (judgeLines stream.stderr).filter (inRange problem.testCases.length) := by
  obtain ⟨rawStdout, hstdout⟩ := h.stdoutRead
  unfold Judge.recordedLines
  rw [hstdout]
  exact recorded_eq_filter h.noFatal

theorem SameOutcomes.streamError (h : SameOutcomes problem outcomes run stream) :
    streamError stream = none := by
  obtain ⟨rawStdout, hstdout⟩ := h.stdoutRead
  unfold Judge.streamError
  rw [hstdout]
  exact fatalError_eq_none h.noFatal

theorem numbered_perTestRows (h : SameOutcomes problem outcomes run stream)
    (hfits : payloadFits problem = true) :
    ∀ (i : ℕ) (o : TestOutcome) (tc : TestCase), outcomes[i]? = some o →
      problem.testCases[i]? = some tc →
      (perTestRows problem run)[i]? =
        some ((i : ℤ) + 1, perTestVerdict problem tc (run i).stdout o) := by
  intro i o tc ho htc
  obtain ⟨json, hjson⟩ := marshal_of_fits hfits (List.mem_of_getElem? htc)
  unfold perTestRows
  rw [List.getElem?_map, List.getElem?_zipIdx, htc, Nat.zero_add]
  show some (row (perTestResult problem i tc (run i)).1.normalize) = _
  rw [(row_perTestResult hjson (h.returns i o ho)).1]

/-- The outcome of a test that there is. -/
theorem SameOutcomes.outcome (h : SameOutcomes problem outcomes run stream) {i : ℕ} {tc : TestCase}
    (htc : problem.testCases[i]? = some tc) : ∃ o, outcomes[i]? = some o := by
  have hi : i < outcomes.length := by
    rw [h.length]
    exact (List.getElem?_eq_some_iff.mp htc).1
  exact ⟨_, List.getElem?_eq_getElem hi⟩

theorem SameOutcomes.testCase (h : SameOutcomes problem outcomes run stream) {i : ℕ}
    (hi : i < outcomes.length) : ∃ tc, problem.testCases[i]? = some tc :=
  ⟨_, List.getElem?_eq_getElem (by rwa [← h.length])⟩

theorem SameOutcomes.numbered_perTest (h : SameOutcomes problem outcomes run stream)
    (hfits : payloadFits problem = true) : Numbered 0 (perTestRows problem run) := by
  intro j r hj
  have hlt := (List.getElem?_eq_some_iff.mp hj).1
  have hlen : (perTestRows problem run).length = problem.testCases.length := by
    unfold perTestRows
    rw [List.length_map, List.length_zipIdx]
  have hj' : j < problem.testCases.length := by omega
  have htc : problem.testCases[j]? = some problem.testCases[j] := List.getElem?_eq_getElem hj'
  obtain ⟨o, ho⟩ := h.outcome htc
  rw [numbered_perTestRows h hfits j o _ ho htc] at hj
  rw [← Option.some.inj hj, Nat.cast_zero, zero_add]

/-- The rows of a batched run whose stream reports the outcomes. -/
def batchedRows (problem : Problem) (stream : ExecStream) : List (ℤ × Bool × String) :=
  (recordedLines problem stream).map (lineRow problem) ++
    (List.range' (recordedLines problem stream).length
      (problem.testCases.length - (recordedLines problem stream).length)).map
      (missingRow (runReason problem stream).1)

theorem SameOutcomes.linesReport (h : SameOutcomes problem outcomes run stream) :
    LinesReport 0 (Judge.recordedLines problem stream) outcomes := by
  rw [h.recordedLines]
  exact h.lines

theorem SameOutcomes.numbered_batched (h : SameOutcomes problem outcomes run stream) :
    Numbered 0 (batchedRows problem stream) := by
  intro j r hj
  unfold batchedRows at hj
  set outs := Judge.recordedLines problem stream with houts
  rcases Nat.lt_or_ge j outs.length with hlt | hge
  · rw [List.getElem?_append_left (by rwa [List.length_map]), List.getElem?_map,
      List.getElem?_eq_getElem hlt] at hj
    have htest := linesReport_tests h.linesReport (List.getElem?_eq_getElem hlt)
    rw [← Option.some.inj hj, lineRow_test, htest]
  · rw [List.getElem?_append_right (by rwa [List.length_map]), List.getElem?_map,
      List.length_map] at hj
    obtain ⟨m, hm, rfl⟩ := Option.map_eq_some_iff.mp hj
    have hlt := (List.getElem?_eq_some_iff.mp hm).1
    rw [List.length_range'] at hlt
    rw [List.getElem?_range' hlt] at hm
    have hm' := Option.some.inj hm
    show (m : ℤ) + 1 = ((0 : ℕ) : ℤ) + j + 1
    omega

/-- **The batched way** gives each outcome up to the first abnormal end its verdict. -/
theorem SameOutcomes.batchedRow (h : SameOutcomes problem outcomes run stream) {i : ℕ}
    {o : TestOutcome} {tc : TestCase} (ho : outcomes[i]? = some o)
    (htc : problem.testCases[i]? = some tc) (hreach : Reached outcomes i) :
    (batchedRows problem stream)[i]? = some ((i : ℤ) + 1, batchedVerdict problem tc o) := by
  unfold batchedRows
  have hi : i < problem.testCases.length := (List.getElem?_eq_some_iff.mp htc).1
  rcases linesReport_get h.linesReport ho hreach with ⟨out, hout, hline⟩ | ⟨hrep, hlen⟩
  · rw [Nat.zero_add] at hline
    have hlt := (List.getElem?_eq_some_iff.mp hout).1
    rw [List.getElem?_append_left (by rwa [List.length_map]), List.getElem?_map, hout,
      Option.map_some, lineRow_of_reportsLine htc hline]
  · cases o with
    | abnormal ending =>
      obtain ⟨timeout, hwait⟩ := h.ending
      rw [processEnd_abnormal ho hreach] at hwait
      have hreason := errorType_remainingReason problem tc ending timeout
        (problem.testCases.length ≤ (Judge.recordedLines problem stream).length)
      rw [List.getElem?_append_right (by rw [List.length_map]; omega), List.length_map, hlen,
        Nat.sub_self, List.getElem?_map]
      obtain ⟨m, hm⟩ : ∃ m, problem.testCases.length - i = m + 1 :=
        ⟨problem.testCases.length - i - 1, by omega⟩
      rw [hm, List.range'_succ]
      show some (missingRow _ i) = _
      unfold missingRow runReason
      rw [h.streamError, hwait, ← hreason]
    | value output => cases hrep
    | error text traceback => cases hrep

theorem SameOutcomes.batchedInternalError (h : SameOutcomes problem outcomes run stream)
    (hall : ∀ o ∈ outcomes, o.reported = true) : (runReason problem stream).2 = none := by
  obtain ⟨timeout, hwait⟩ := h.ending
  have hlen := linesReport_length h.linesReport hall
  rw [processEnd_reported hall] at hwait
  unfold runReason
  rw [h.streamError, hwait, hlen, h.length, decide_eq_true (le_refl _)]
  rfl

theorem SameOutcomes.perTestInternalError (h : SameOutcomes problem outcomes run stream)
    (hfits : payloadFits problem = true) (hall : ∀ o ∈ outcomes, o.reported = true) :
    ∀ t ∈ problem.testCases.zipIdx, (perTestResult problem t.2 t.1 (run t.2)).2 = none := by
  rintro ⟨tc, i⟩ ht
  have htc : problem.testCases[i]? = some tc := List.mem_zipIdx_iff_getElem?.mp ht
  obtain ⟨json, hjson⟩ := marshal_of_fits hfits (List.mem_of_getElem? htc)
  obtain ⟨o, ho⟩ := h.outcome htc
  exact (row_perTestResult hjson (h.returns i o ho)).2 (hall o (List.mem_of_getElem? ho))

/-- **The two ways agree exactly when their differences do not come to bear.**  The
tests JSON fits a batched run, and up to the first abnormal end no accepted output
and no error comes with more than 64 KB of user output, no error mentions that
memory ran out in its traceback alone, and no process is killed with exit code 137. -/
theorem paths_agree_iff {clock' : Clock} {prep' : Preparation}
    (hprepare : prep.prepareFiles = none)
    (hcompile : compileCentralSubmission prep.compile = none)
    (hprepare' : prep'.prepareFiles = none)
    (hcompile' : compileCentralSubmission prep'.compile = none)
    (h : SameOutcomes problem outcomes run stream) :
    (∃ perTest batched, runSubmissionCentralPerTest problem clock prep run = .ok perTest ∧
      runSubmissionCentralBatched problem clock' prep' (.ok stream) = .ok batched ∧
      PathsAgree outcomes perTest batched) ↔
    payloadFits problem = true ∧
      ∀ (i : ℕ) (o : TestOutcome) (tc : TestCase), outcomes[i]? = some o →
        problem.testCases[i]? = some tc → Reached outcomes i →
        Harmless problem tc (run i).stdout o := by
  obtain ⟨perTest, hrun, hrows, hcounted, hint⟩ :=
    perTest_spec problem clock run hprepare hcompile
  obtain ⟨hrows', hcounted', hint'⟩ := rows_collectBatched problem clock' stream
  set batched := collectBatched problem clock' stream (startedResult clock') with hbatched
  -- the verdicts that the two ways give to a test
  have hperTest : payloadFits problem = true → ∀ (i : ℕ) (o : TestOutcome) (tc : TestCase),
      outcomes[i]? = some o → problem.testCases[i]? = some tc →
      verdictOf perTest ((i : ℤ) + 1) = some (perTestVerdict problem tc (run i).stdout o) := by
    intro hfits i o tc ho htc
    rw [verdictOf_eq (by rw [hrows]; exact h.numbered_perTest hfits), hrows,
      numbered_perTestRows h hfits i o tc ho htc]
    rfl
  have hbatch : ∀ (i : ℕ) (o : TestOutcome) (tc : TestCase), outcomes[i]? = some o →
      problem.testCases[i]? = some tc → Reached outcomes i →
      verdictOf batched ((i : ℤ) + 1) = some (batchedVerdict problem tc o) := by
    intro i o tc ho htc hreach
    rw [verdictOf_eq (by rw [hrows']; exact h.numbered_batched), hrows']
    exact congrArg (Option.map Prod.snd) (h.batchedRow ho htc hreach)
  constructor
  · rintro ⟨perTest', batched', hrun', hrunBatched, hagree⟩
    rw [hrun] at hrun'
    obtain rfl := Except.ok.inj hrun'
    have hfits := fits_of_run hprepare' hcompile' hrunBatched
    rw [eq_collectBatched hcompile' hrunBatched] at hagree
    refine ⟨hfits, fun i o tc ho htc hreach => ?_⟩
    obtain ⟨v, hv, hv'⟩ :=
      hagree.verdicts i (List.getElem?_eq_some_iff.mp ho).1 hreach
    rw [hperTest hfits i o tc ho htc] at hv
    rw [hbatch i o tc ho htc hreach] at hv'
    exact (verdicts_eq_iff problem tc (run i).stdout o).mp (Option.some.inj (hv.trans hv'.symm))
  · rintro ⟨hfits, hharmless⟩
    refine ⟨perTest, batched, hrun, run_eq_ok hprepare' hcompile' hfits, ?_, ?_⟩
    · intro i hi hreach
      obtain ⟨tc, htc⟩ := h.testCase hi
      have ho : outcomes[i]? = some outcomes[i] := List.getElem?_eq_getElem hi
      refine ⟨_, hperTest hfits i _ tc ho htc, ?_⟩
      rw [hbatch i _ tc ho htc hreach,
        (verdicts_eq_iff problem tc (run i).stdout _).mpr (hharmless i _ tc ho htc hreach)]
    · intro hall
      have hrowsEq : rows perTest = rows batched := by
        rw [hrows, hrows']
        apply List.ext_getElem?
        intro i
        by_cases hi : i < problem.testCases.length
        · have htc : problem.testCases[i]? = some problem.testCases[i] :=
            List.getElem?_eq_getElem hi
          obtain ⟨o, ho⟩ := h.outcome htc
          have hreach : Reached outcomes i :=
            fun j _ o' ho' => hall o' (List.mem_of_getElem? ho')
          rw [numbered_perTestRows h hfits i o _ ho htc,
            (verdicts_eq_iff problem _ (run i).stdout o).mpr (hharmless i o _ ho htc hreach)]
          exact (h.batchedRow ho htc hreach).symm
        · have hlen := linesReport_length h.linesReport hall
          rw [h.length] at hlen
          rw [List.getElem?_eq_none (by
              unfold perTestRows
              rw [List.length_map, List.length_zipIdx]
              omega),
            List.getElem?_eq_none (by
              rw [List.length_append, List.length_map, List.length_map, List.length_range']
              omega)]
      refine ⟨status_congr hcounted hcounted' hrowsEq, ?_⟩
      rw [hint (h.perTestInternalError hfits hall), hint', h.batchedInternalError hall]
      rfl

end Agreement


/-- A test that raises an error, and a test that exits with code 1. -/
def raisedThenExit : List TestOutcome :=
  [.error "division by zero" "", .abnormal (.exit 1 (by decide))]

def raisedThenExitRun (i : ℕ) : ExecAnswer :=
  if i = 0 then ⟨"", "\x7b\"error\":\"division by zero\"\x7d\n", none⟩
  else ⟨"", "", (execWaitResult (.exited 1)).2⟩

def raisedThenExitStream : ExecStream :=
  ⟨.ok "", "\x7b\"test\":1,\"error\":\"division by zero\"\x7d\n", execWaitResult (.exited 1)⟩

theorem sameOutcomes_raisedThenExit :
    SameOutcomes twoOnes raisedThenExit raisedThenExitRun raisedThenExitStream := by
  refine ⟨rfl, ?_, ⟨_, rfl⟩, by decide +kernel, ?_, ⟨"", rfl⟩⟩
  · intro i o ho
    match i with
    | 0 =>
      obtain rfl := Option.some.inj ho
      have hparse : ((parseSingleTestOutput (Text.trimSpace (raisedThenExitRun 0).stdout)
          (Text.trimSpace (raisedThenExitRun 0).stderr)).1.map fun out =>
            (out.error, out.traceback)) = some ("division by zero", "") := by decide +kernel
      obtain ⟨out, hout, heq⟩ := Option.map_eq_some_iff.mp hparse
      exact ⟨rfl, by decide, out, hout, congrArg Prod.fst heq, congrArg Prod.snd heq⟩
    | 1 =>
      obtain rfl := Option.some.inj ho
      exact ⟨"", rfl⟩
    | i + 2 => cases ho
  · have hlen : ((judgeLines raisedThenExitStream.stderr).filter
        (inRange twoOnes.testCases.length)).length = 1 := by decide +kernel
    have hout : ∀ out ∈ (judgeLines raisedThenExitStream.stderr).filter
        (inRange twoOnes.testCases.length), out.test = 1 ∧ out.error = "division by zero" ∧
        out.traceback = "" := by decide +kernel
    generalize (judgeLines raisedThenExitStream.stderr).filter
      (inRange twoOnes.testCases.length) = outs at hlen hout ⊢
    obtain ⟨out, rfl⟩ := List.length_eq_one_iff.mp hlen
    obtain ⟨htest, herr, htb⟩ := hout out (List.mem_singleton_self out)
    exact ⟨⟨htest, by decide, herr, htb⟩, trivial⟩

theorem paths_agree_raisedThenExit :
    ∃ perTest batched,
      runSubmissionCentralPerTest twoOnes stopped ⟨none, none⟩ raisedThenExitRun = .ok perTest ∧
      runSubmissionCentralBatched twoOnes stopped ⟨none, none⟩ (.ok raisedThenExitStream) =
        .ok batched ∧
      PathsAgree raisedThenExit perTest batched := by
  refine (paths_agree_iff rfl rfl rfl rfl sameOutcomes_raisedThenExit).mpr
    ⟨by decide +kernel, ?_⟩
  intro i o tc ho _ _
  match i with
  | 0 =>
    obtain rfl := Option.some.inj ho
    exact ⟨by decide +kernel, by decide +kernel⟩
  | 1 =>
    obtain rfl := Option.some.inj ho
    exact (by decide : (1 : ℤ) ≠ 137)
  | i + 2 => cases ho

/-- A test whose process is killed with exit code 137, by the name of a memory limit
in one way and of a runtime error in the other. -/
theorem paths_agree_fails :
    SameOutcomes { testCases := [{}] } [.abnormal (.exit 137 (by decide))]
        (fun _ => ⟨"", "", (execWaitResult (.exited 137)).2⟩)
        ⟨.ok "", "", execWaitResult (.exited 137)⟩ ∧
      ¬∃ perTest batched,
        runSubmissionCentralPerTest { testCases := [{}] } stopped ⟨none, none⟩
          (fun _ => ⟨"", "", (execWaitResult (.exited 137)).2⟩) = .ok perTest ∧
        runSubmissionCentralBatched { testCases := [{}] } stopped ⟨none, none⟩
          (.ok ⟨.ok "", "", execWaitResult (.exited 137)⟩) = .ok batched ∧
        PathsAgree [.abnormal (.exit 137 (by decide))] perTest batched := by
  constructor
  · have hnil : judgeLines "" = [] := List.eq_nil_of_length_eq_zero (by decide +kernel)
    refine ⟨rfl, ?_, ⟨_, rfl⟩, by decide +kernel, ?_, ⟨"", rfl⟩⟩
    · intro i o ho
      match i with
      | 0 =>
        obtain rfl := Option.some.inj ho
        exact ⟨"", rfl⟩
      | i + 1 => cases ho
    · rw [hnil]
      exact trivial
  · rintro ⟨perTest, batched, hperTest, hbatched, hagree⟩
    obtain ⟨v, hv, hv'⟩ := hagree.verdicts 0 (by decide) (fun j hj => absurd hj (by omega))
    rw [eq_perTestLoop rfl rfl hperTest] at hv
    rw [eq_collectBatched rfl hbatched] at hv'
    exact absurd (hv.trans hv'.symm) (by decide +kernel)

end Judge
