/-
# Soundness of batched runs

A batched run records a detail for each judge line and completes the details by
number: after `k` recorded lines it appends the tests `k + 1, …, n`.  So the
details cover each test once exactly when the recorded lines are, in some order,
about the tests `1, …, k`; a repeated line takes the place of a test that was not
reported at all.

* `rows_collectBatched` : the details of a run, recorded lines first.
* `batched_sound_iff` : a run is sound exactly when its recorded tests are an
  initial segment.
* `batched_sound_fails` : two passing lines for the first of two tests.
-/
import JudgePlatform.Judge.CentralRunner

namespace Judge

/-! ## Rows -/

/-- What the verdict reads from a detail, and the test it is about. -/
def row (d : TestResult) : ℤ × Bool × String := (d.test, d.passed, d.errorType)

def rows (result : SubmissionResult) : List (ℤ × Bool × String) := result.details.map row

theorem row_normalize_timeMs (tr : TestResult) (ms : ℤ) :
    row ({ tr with timeMs := ms } : TestResult).normalize = row tr.normalize := by
  unfold TestResult.normalize
  dsimp only
  split_ifs <;> rfl

theorem rows_addTestResult (result : SubmissionResult) (tr : TestResult) (ms : ℤ) :
    rows (result.addTestResult { tr with timeMs := ms }) = rows result ++ [row tr.normalize] := by
  unfold rows
  rw [details_addTestResult, List.map_append, List.map_singleton, row_normalize_timeMs]

theorem row_failed {tr : TestResult} (hp : tr.passed = false) (ho : tr.ok = false)
    (he : tr.errorType ≠ "") : row tr.normalize = (tr.test, false, tr.errorType) := by
  rw [TestResult.normalize_of_failed (by rw [hp, ho]; decide) he, row, hp]

theorem errorTypeOfReason_ne (reason : String) : errorTypeOfReason reason ≠ "" := by
  unfold errorTypeOfReason
  split_ifs <;> decide

theorem row_markTestFailed (tr : TestResult) (reason : String) :
    row (markTestFailed tr reason).normalize = (tr.test, false, errorTypeOfReason reason) :=
  row_failed rfl rfl (errorTypeOfReason_ne reason)

theorem row_judgeOutput (problem : Problem) (tc : TestCase) (output : GoValue) (tr : TestResult) :
    row (judgeOutput problem tc output tr).normalize =
      (tr.test, compare tc.expected output problem.compareConfig,
        if compare tc.expected output problem.compareConfig then "" else errorTypeWrongAnswer) := by
  unfold judgeOutput
  cases hc : compare tc.expected output problem.compareConfig with
  | true => rfl
  | false =>
    rw [row_failed rfl rfl]
    · rfl
    · exact (by decide : errorTypeWrongAnswer ≠ "")

/-! ## The lines that become details -/

/-- The test that a line is about is a test of the problem. -/
def inRange (n : ℕ) (out : BatchedTestExecOutput) : Bool := 0 < out.test ∧ out.test ≤ n

/-- The judge lines that become details: those in range before the first fatal one. -/
def recorded (n : ℕ) (outs : List BatchedTestExecOutput) : List BatchedTestExecOutput :=
  (outs.takeWhile fun out => out.fatal = "").filter (inRange n)

/-- The error of the first fatal line. -/
def fatalError (outs : List BatchedTestExecOutput) : Option GoError :=
  (outs.find? fun out => out.fatal ≠ "").map fun out =>
    .other ("wrapper fatal error: " ++ out.fatal)

/-- The row of a recorded line. -/
def lineRow (problem : Problem) (out : BatchedTestExecOutput) : ℤ × Bool × String :=
  row (batchedResult problem "" out).normalize

/-- A line without an error whose output is accepted for its test. -/
def passing (problem : Problem) (out : BatchedTestExecOutput) : Bool :=
  out.error = "" ∧
    compare (problem.testCases.getD (out.test - 1).toNat {}).expected out.output
      problem.compareConfig = true

theorem row_batchedResult (problem : Problem) (rawStdout : String) (out : BatchedTestExecOutput) :
    row (batchedResult problem rawStdout out).normalize =
      (out.test, passing problem out,
        if out.error ≠ "" then
          if mentionsOutOfMemory out.error then errorTypeMemoryLimit else errorTypeRuntime
        else if passing problem out then "" else errorTypeWrongAnswer) := by
  unfold batchedResult passing
  by_cases he : out.error = ""
  · simp only [he, ne_eq, not_true_eq_false, if_false, true_and]
    rw [row_judgeOutput, Bool.decide_eq_true]
  · simp only [he, ne_eq, not_false_eq_true, if_true, false_and, decide_false]
    by_cases hoom : mentionsOutOfMemory out.error = true
    · rw [if_pos hoom, if_pos hoom]
      split_ifs
      · exact row_failed rfl rfl (errorTypeOfReason_ne submissionStatusMemoryLimitExceeded)
      · exact row_markTestFailed _ submissionStatusMemoryLimitExceeded
    · rw [if_neg hoom, if_neg hoom]
      split_ifs
      · exact row_failed rfl rfl (errorTypeOfReason_ne submissionStatusRuntimeError)
      · exact row_markTestFailed _ submissionStatusRuntimeError

/-- What a user prints does not change the row of a line. -/
theorem lineRow_eq (problem : Problem) (rawStdout : String) (out : BatchedTestExecOutput) :
    row (batchedResult problem rawStdout out).normalize = lineRow problem out := by
  rw [lineRow, row_batchedResult, row_batchedResult]

/-- **The loop over the lines**: one row for each recorded line, in order. -/
theorem batchedLoop_spec (problem : Problem) (clock : Clock) (rawStdout : String)
    (ls : List String) (result : SubmissionResult) (processed : ℕ) :
    let r := batchedLoop problem clock rawStdout ls result processed
    let outs := recorded problem.testCases.length (ls.filterMap judgeLine)
    rows r.1 = rows result ++ outs.map (lineRow problem) ∧ r.2.1 = processed + outs.length ∧
      r.2.2 = fatalError (ls.filterMap judgeLine) ∧ (Counted result → Counted r.1) ∧
      r.1.internalError = result.internalError := by
  induction ls generalizing result processed with
  | nil => exact ⟨(List.append_nil _).symm, rfl, rfl, id, rfl⟩
  | cons l ls ih =>
    dsimp only at ih ⊢
    unfold batchedLoop
    cases hl : judgeLine l with
    | none =>
      rw [List.filterMap_cons_none hl]
      exact ih result processed
    | some out =>
      rw [List.filterMap_cons_some hl]
      dsimp only
      by_cases hfatal : out.fatal = ""
      · have herr : fatalError (out :: ls.filterMap judgeLine) =
            fatalError (ls.filterMap judgeLine) := by
          unfold fatalError
          rw [List.find?_cons_of_neg (by simp [hfatal])]
        have htake : (out :: ls.filterMap judgeLine).takeWhile (fun out => out.fatal = "") =
            out :: (ls.filterMap judgeLine).takeWhile (fun out => out.fatal = "") :=
          List.takeWhile_cons_of_pos (by simp [hfatal])
        rw [if_neg (not_not.mpr hfatal), herr]
        unfold recorded at ih ⊢
        rw [htake]
        by_cases hrange : out.test ≤ 0 ∨ (problem.testCases.length : ℤ) < out.test
        · have hout : ¬inRange problem.testCases.length out = true := by
            unfold inRange
            rw [decide_eq_true_eq]
            omega
          rw [if_pos hrange, List.filter_cons_of_neg hout]
          exact ih result processed
        · have hin : inRange problem.testCases.length out = true := by
            unfold inRange
            rw [decide_eq_true_eq]
            omega
          rw [if_neg hrange, List.filter_cons_of_pos hin]
          obtain ⟨hrows, hproc, hfat, hcount, hint⟩ := ih (result.addTestResult
            { batchedResult problem rawStdout out with
              timeMs := clock.testMs result.details.length }) (processed + 1)
          refine ⟨?_, ?_, hfat, fun h => hcount (h.addTestResult _), ?_⟩
          · rw [hrows, rows_addTestResult, lineRow_eq, List.append_assoc]
            rfl
          · rw [hproc, List.length_cons]
            omega
          · rw [hint, internalError_addTestResult]
      · -- a fatal line ends the loop
        unfold recorded fatalError
        rw [if_pos hfatal, List.takeWhile_cons_of_neg (by simp [hfatal]),
          List.find?_cons_of_pos (by simp [hfatal])]
        exact ⟨(List.append_nil _).symm, rfl, rfl, id, rfl⟩

/-! ## The tests without a line -/

/-- The row of a test that no line reports. -/
def missingRow (reason : String) (i : ℕ) : ℤ × Bool × String :=
  (i + 1, false, errorTypeOfReason reason)

theorem row_missingResult (problem : Problem) (reason : String) (i : ℕ) :
    row (missingResult problem reason i).normalize = missingRow reason i :=
  row_markTestFailed _ reason

theorem appendMissingLoop_spec (problem : Problem) (reason : String) (left i : ℕ)
    (result : SubmissionResult) :
    let r := appendMissingLoop problem reason left i result
    rows r = rows result ++ (List.range' i left).map (missingRow reason) ∧
      (Counted result → Counted r) ∧ r.internalError = result.internalError := by
  induction left generalizing i result with
  | zero => exact ⟨(List.append_nil _).symm, id, rfl⟩
  | succ left ih =>
    dsimp only at ih ⊢
    obtain ⟨hrows, hcount, hint⟩ :=
      ih (i + 1) (result.addTestResult (missingResult problem reason i))
    have hrow : rows (result.addTestResult (missingResult problem reason i)) =
        rows result ++ [missingRow reason i] := by
      unfold rows
      rw [details_addTestResult, List.map_append, List.map_singleton, row_missingResult]
    unfold appendMissingLoop
    refine ⟨?_, fun h => hcount (h.addTestResult _), ?_⟩
    · rw [hrows, hrow, List.append_assoc, List.range'_succ]
      rfl
    · rw [hint, internalError_addTestResult]

/-! ## A whole run -/

/-- The lines that become details when the streams are read. -/
def recordedLines (problem : Problem) (stream : ExecStream) : List BatchedTestExecOutput :=
  match stream.stdout with
  | .error _ => []
  | .ok _ => recorded problem.testCases.length (judgeLines stream.stderr)

/-- The error that reading the streams ends with. -/
def streamError (stream : ExecStream) : Option GoError :=
  match stream.stdout with
  | .error err => some err
  | .ok _ => fatalError (judgeLines stream.stderr)

/-- Why the tests without a line fail in a run, and the internal error. -/
def runReason (problem : Problem) (stream : ExecStream) : String × Option String :=
  remainingReason (streamError stream) (batchedRunError stream.wait)
    (problem.testCases.length ≤ (recordedLines problem stream).length)

theorem appendBatchedResults_spec (problem : Problem) (clock : Clock) (stream : ExecStream)
    (result : SubmissionResult) :
    let r := appendBatchedResults problem clock stream result
    rows r.1 = rows result ++ (recordedLines problem stream).map (lineRow problem) ∧
      r.2.1 = (recordedLines problem stream).length ∧ r.2.2.1 = streamError stream ∧
      (Counted result → Counted r.1) ∧ r.1.internalError = result.internalError := by
  unfold appendBatchedResults recordedLines streamError
  cases stream.stdout with
  | error err => exact ⟨(List.append_nil _).symm, rfl, rfl, id, rfl⟩
  | ok rawStdout =>
    obtain ⟨hrows, hproc, hfat, hcount, hint⟩ :=
      batchedLoop_spec problem clock rawStdout (Text.lines stream.stderr) result 0
    exact ⟨hrows, hproc.trans (Nat.zero_add _), hfat, hcount, hint⟩

/-- Without a reason all tests have a line. -/
theorem allProcessed_of_reason {parseErr runErr : Option GoError} {allProcessed : Bool}
    (h : (remainingReason parseErr runErr allProcessed).1 = "") : allProcessed = true := by
  unfold remainingReason at h
  by_cases hlimit : (parseErr.any fun err => err.is .errBatchedOutputLimitExceeded) = true
  · rw [if_pos hlimit] at h
    exact absurd h (by decide)
  · rw [if_neg hlimit] at h
    cases runErr with
    | some err =>
      dsimp only at h
      split_ifs at h
      · exact absurd h (by decide)
      · exact absurd h (by decide)
    | none =>
      cases parseErr with
      | some err => exact absurd h (by decide : ¬"Runtime Error" = "")
      | none =>
        dsimp only at h
        split_ifs at h with hall
        · exact hall
        · exact absurd h (by decide)

theorem counted_startedResult (clock : Clock) : Counted (startedResult clock) :=
  ⟨⟨rfl, rfl, rfl, rfl, fun _ h => nomatch h⟩, rfl⟩

theorem Counted.of_eq {sr sr' : SubmissionResult} (h : Counted sr) (hd : sr'.details = sr.details)
    (hc : (sr'.total, sr'.totalCount, sr'.passed, sr'.passedCount, sr'.status) =
      (sr.total, sr.totalCount, sr.passed, sr.passedCount, sr.status)) : Counted sr' := by
  simp only [Prod.mk.injEq] at hc
  obtain ⟨ht, htc, hp, hpc, hs⟩ := hc
  refine ⟨⟨?_, ?_, ?_, ?_, ?_⟩, ?_⟩
  · rw [ht, hd]
    exact h.total
  · rw [htc, ht]
    exact h.totalCount
  · rw [hp, hd]
    exact h.passed
  · rw [hpc, hp]
    exact h.passedCount
  · rw [hd]
    exact h.normalized
  · rw [hs, hd]
    exact h.status

/-- The end of a run keeps details, counts and the internal error. -/
theorem finish_updateStatus (sr : SubmissionResult) (clock : Clock) :
    rows (sr.finish clock).updateStatus = rows sr ∧
      (Counted sr → Counted (sr.finish clock).updateStatus) ∧
      (sr.finish clock).updateStatus.internalError = sr.internalError := by
  refine ⟨?_, fun h => ?_, ?_⟩
  · unfold rows
    rw [details_updateStatus]
    rfl
  · have hfinish : Counted (sr.finish clock) := h.of_eq rfl rfl
    exact hfinish.updateStatus
  · rw [internalError_updateStatus]
    rfl

/-- **The details of a batched run**: the recorded lines, then the tests from the
number of lines on. -/
theorem rows_collectBatched (problem : Problem) (clock : Clock) (stream : ExecStream) :
    let outs := recordedLines problem stream
    let result := collectBatched problem clock stream (startedResult clock)
    rows result = outs.map (lineRow problem) ++
        (List.range' outs.length (problem.testCases.length - outs.length)).map
          (missingRow (runReason problem stream).1) ∧
      Counted result ∧ result.internalError = (runReason problem stream).2.getD "" := by
  obtain ⟨hrows, hproc, herr, hcount, hint⟩ :=
    appendBatchedResults_spec problem clock stream (startedResult clock)
  set r := appendBatchedResults problem clock stream (startedResult clock) with hr
  have hreason : remainingReason r.2.2.1 (batchedRunError stream.wait)
      (problem.testCases.length ≤ r.2.1) = runReason problem stream := by
    rw [hproc, herr]
    rfl
  unfold collectBatched
  rw [← hr]
  dsimp only
  rw [hreason, hproc]
  set outs := recordedLines problem stream
  set read := r.1.recordErrors (if r.2.2.1.isSome then some r.2.2.2 else none)
    (runReason problem stream).2
  have hreadRows : rows read = outs.map (lineRow problem) := hrows
  have hreadCounted : Counted read := (hcount (counted_startedResult clock)).of_eq rfl rfl
  have hreadInternal : read.internalError = (runReason problem stream).2.getD "" := by
    show (runReason problem stream).2.getD r.1.internalError = _
    rw [hint]
    rfl
  by_cases hne : (runReason problem stream).1 = ""
  · have hall := allProcessed_of_reason (hne : (remainingReason _ _ _).1 = "")
    have hle : problem.testCases.length - outs.length = 0 :=
      Nat.sub_eq_zero_of_le (of_decide_eq_true hall)
    obtain ⟨hrows', hcounted', hint'⟩ := finish_updateStatus read clock
    rw [if_neg (not_not.mpr hne), hle]
    exact ⟨hrows'.trans (hreadRows.trans (List.append_nil _).symm), hcounted' hreadCounted,
      hint'.trans hreadInternal⟩
  · obtain ⟨hmiss, hmissCounted, hmissInternal⟩ := appendMissingLoop_spec problem
      (runReason problem stream).1 (problem.testCases.length - outs.length) outs.length read
    obtain ⟨hrows', hcounted', hint'⟩ := finish_updateStatus
      (appendMissingBatchedResults read problem outs.length (runReason problem stream).1) clock
    rw [if_pos hne]
    exact ⟨hrows'.trans (hmiss.trans (by rw [hreadRows])),
      hcounted' (hmissCounted hreadCounted), hint'.trans (hmissInternal.trans hreadInternal)⟩

/-- The tests JSON of a batched run can be marshalled and is not too large. -/
def payloadFits (problem : Problem) : Bool :=
  match (testsPayload problem).marshal with
  | .error _ => false
  | .ok json => Text.byteLength (String.ofList (json.print Json.goEscape)) ≤ maxTestsBytes

theorem run_eq_ok {problem : Problem} {clock : Clock} {prep : Preparation} {stream : ExecStream}
    (hprepare : prep.prepareFiles = none)
    (hcompile : compileCentralSubmission prep.compile = none)
    (hfits : payloadFits problem = true) :
    runSubmissionCentralBatched problem clock prep (.ok stream) =
      .ok (collectBatched problem clock stream (startedResult clock)) := by
  unfold runSubmissionCentralBatched
  unfold payloadFits at hfits
  rw [hprepare, hcompile]
  dsimp only
  cases hm : (testsPayload problem).marshal with
  | error err =>
    rw [hm] at hfits
    cases hfits
  | ok json =>
    rw [hm] at hfits
    dsimp only
    rw [if_neg (not_lt.mpr (of_decide_eq_true hfits))]

theorem eq_collectBatched {problem : Problem} {clock : Clock} {prep : Preparation}
    {stream : ExecStream} {result : SubmissionResult}
    (hcompile : compileCentralSubmission prep.compile = none)
    (hrun : runSubmissionCentralBatched problem clock prep (.ok stream) = .ok result) :
    result = collectBatched problem clock stream (startedResult clock) := by
  unfold runSubmissionCentralBatched at hrun
  rw [hcompile] at hrun
  split at hrun
  · cases hrun
  · dsimp only at hrun
    split at hrun
    · cases hrun
    · split_ifs at hrun
      exact (Except.ok.inj hrun).symm

/-! ## Soundness -/

/-- The numbers `1, …, n`. -/
def testNumbers (n : ℕ) : List ℤ := (List.range' 1 n).map Nat.cast

/-- The stream reports each test once, with an output that is accepted; other lines
may be noise or about tests that there are not. -/
structure CarriesPassing (problem : Problem) (stream : ExecStream) : Prop where
  stdoutRead : ∃ rawStdout, stream.stdout = .ok rawStdout
  noFatal : ∀ out ∈ judgeLines stream.stderr, out.fatal = ""
  onePassing : ∀ (i : ℕ) (tc : TestCase), problem.testCases[i]? = some tc →
    ∃ out, (judgeLines stream.stderr).filter (fun out => out.test = (i : ℤ) + 1) = [out] ∧
      out.error = "" ∧ compare tc.expected out.output problem.compareConfig = true

/-- What a batched run promises about its result. -/
structure BatchedSound (problem : Problem) (stream : ExecStream) (result : SubmissionResult) :
    Prop where
  oneDetail : ∀ i < problem.testCases.length,
    (result.details.filter fun d => d.test = (i : ℤ) + 1).length = 1
  accepted : result.status = submissionStatusAccepted →
    ∀ (i : ℕ) (tc : TestCase), problem.testCases[i]? = some tc →
      ∃ out ∈ judgeLines stream.stderr, out.test = (i : ℤ) + 1 ∧ out.error = "" ∧
        compare tc.expected out.output problem.compareConfig = true
  complete : problem.testCases ≠ [] → CarriesPassing problem stream → stream.wait = (0, none) →
    result.status = submissionStatusAccepted

/-- The recorded lines are, in some order, about the first tests. -/
def InitialSegment (problem : Problem) (stream : ExecStream) : Prop :=
  ((recordedLines problem stream).map fun out => out.test).Perm
    (testNumbers (recordedLines problem stream).length)

/-- The tests that the details are about. -/
def tests (result : SubmissionResult) : List ℤ := result.details.map fun d => d.test

theorem tests_eq (result : SubmissionResult) : tests result = (rows result).map Prod.fst := by
  unfold tests rows
  rw [List.map_map]
  rfl

theorem length_filter_test (result : SubmissionResult) (t : ℤ) :
    (result.details.filter fun d => d.test = t).length = (tests result).count t := by
  unfold tests
  rw [List.count, List.countP_map, List.countP_eq_length_filter]
  rfl

theorem lineRow_test (problem : Problem) (out : BatchedTestExecOutput) :
    (lineRow problem out).1 = out.test := by
  rw [lineRow, row_batchedResult]

theorem testNumbers_append {k n : ℕ} (h : k ≤ n) :
    testNumbers n = testNumbers k ++ (List.range' k (n - k)).map fun i : ℕ => (i : ℤ) + 1 := by
  unfold testNumbers
  obtain ⟨m, rfl⟩ := Nat.exists_eq_add_of_le h
  rw [Nat.add_sub_cancel_left, ← List.range'_append_1, List.map_append]
  congr 1
  rw [← List.map_add_range' k m 1, List.map_map]
  apply List.map_congr_left
  intro i _
  show ((1 + i : ℕ) : ℤ) = i + 1
  push_cast
  ring

/-- The tests of the details: those of the recorded lines and those that follow. -/
theorem tests_collectBatched (problem : Problem) (clock : Clock) (stream : ExecStream) :
    let outs := recordedLines problem stream
    tests (collectBatched problem clock stream (startedResult clock)) =
      outs.map (fun out => out.test) ++
        (List.range' outs.length (problem.testCases.length - outs.length)).map
          fun i : ℕ => (i : ℤ) + 1 := by
  dsimp only
  rw [tests_eq, (rows_collectBatched problem clock stream).1, List.map_append, List.map_map,
    List.map_map]
  congr 1
  apply List.map_congr_left
  intro out _
  exact lineRow_test problem out

theorem mem_recordedLines {problem : Problem} {stream : ExecStream} {out : BatchedTestExecOutput}
    (h : out ∈ recordedLines problem stream) :
    out ∈ judgeLines stream.stderr ∧ 0 < out.test ∧ out.test ≤ problem.testCases.length := by
  unfold recordedLines at h
  cases hs : stream.stdout with
  | error err => rw [hs] at h; cases h
  | ok rawStdout =>
    rw [hs] at h
    obtain ⟨htake, hin⟩ := List.mem_filter.mp h
    exact ⟨(List.takeWhile_prefix _).subset htake, of_decide_eq_true hin⟩

theorem mem_testNumbers {n : ℕ} {t : ℤ} : t ∈ testNumbers n ↔ 0 < t ∧ t ≤ n := by
  unfold testNumbers
  rw [List.mem_map]
  constructor
  · rintro ⟨i, hi, rfl⟩
    rw [List.mem_range'_1] at hi
    omega
  · intro h
    refine ⟨t.toNat, ?_, by omega⟩
    rw [List.mem_range'_1]
    omega

theorem nodup_testNumbers (n : ℕ) : (testNumbers n).Nodup :=
  List.Nodup.map Nat.cast_injective (List.nodup_range' : (List.range' 1 n).Nodup)

theorem length_testNumbers (n : ℕ) : (testNumbers n).length = n := by
  unfold testNumbers
  rw [List.length_map, List.length_range']

/-- **One detail for each test** is the same as an initial segment of recorded tests. -/
theorem oneDetail_iff (problem : Problem) (clock : Clock) (stream : ExecStream) :
    (∀ i < problem.testCases.length,
      (((collectBatched problem clock stream (startedResult clock)).details.filter
        fun d => d.test = (i : ℤ) + 1).length = 1)) ↔ InitialSegment problem stream := by
  set n := problem.testCases.length with hn
  set outs := recordedLines problem stream with houts
  have hrange : ∀ t : ℤ, t ∈ outs.map (fun out => out.test) → 0 < t ∧ t ≤ n := by
    intro t ht
    obtain ⟨out, hout, rfl⟩ := List.mem_map.mp ht
    exact (mem_recordedLines hout).2
  have htests : tests (collectBatched problem clock stream (startedResult clock)) =
      outs.map (fun out => out.test) ++
        (List.range' outs.length (n - outs.length)).map fun i : ℕ => (i : ℤ) + 1 :=
    tests_collectBatched problem clock stream
  simp only [length_filter_test]
  rw [htests]
  constructor
  · intro hone
    have hperm : (outs.map (fun out => out.test) ++
        (List.range' outs.length (n - outs.length)).map fun i : ℕ => (i : ℤ) + 1).Perm
        (testNumbers n) := by
      rw [List.perm_iff_count]
      intro t
      by_cases ht : 0 < t ∧ t ≤ n
      · have h1 := hone (t - 1).toNat (by omega)
        rw [show (((t - 1).toNat : ℕ) : ℤ) + 1 = t from by omega] at h1
        rw [h1, List.count_eq_one_of_mem (nodup_testNumbers n) (mem_testNumbers.mpr ht)]
      · rw [List.count_eq_zero_of_not_mem fun h => ht (mem_testNumbers.mp h)]
        apply List.count_eq_zero_of_not_mem
        intro h
        rcases List.mem_append.mp h with h | h
        · exact ht (hrange t h)
        · obtain ⟨i, hi, rfl⟩ := List.mem_map.mp h
          rw [List.mem_range'_1] at hi
          omega
    have hlen := hperm.length_eq
    rw [List.length_append, List.length_map, List.length_map, List.length_range',
      length_testNumbers] at hlen
    rw [testNumbers_append (by omega : outs.length ≤ n)] at hperm
    exact (List.perm_append_right_iff _).mp hperm
  · intro hseg i hi
    have hle : outs.length ≤ n := by
      rcases Nat.eq_zero_or_pos outs.length with h0 | hpos
      · omega
      · have hmem : (outs.length : ℤ) ∈ outs.map (fun out => out.test) :=
          hseg.mem_iff.mpr (mem_testNumbers.mpr ⟨by omega, le_refl _⟩)
        have := (hrange _ hmem).2
        omega
    have hperm := hseg.append_right
      ((List.range' outs.length (n - outs.length)).map fun i : ℕ => (i : ℤ) + 1)
    rw [← testNumbers_append hle] at hperm
    rw [hperm.count_eq]
    exact List.count_eq_one_of_mem (nodup_testNumbers n) (mem_testNumbers.mpr (by omega))

/-- A recorded line's detail has passed exactly when the line is passing. -/
theorem lineRow_passed (problem : Problem) (out : BatchedTestExecOutput) :
    (lineRow problem out).2.1 = passing problem out := by
  rw [lineRow, row_batchedResult]

/-- **A run is accepted when all its rows have passed.** -/
theorem accepted_iff_rows {result : SubmissionResult} (h : Counted result)
    (hne : result.details ≠ []) :
    result.status = submissionStatusAccepted ↔ ∀ r ∈ rows result, r.2.1 = true := by
  rw [h.status, if_neg hne, h.verdict_accepted]
  unfold rows
  rw [List.forall_mem_map]
  rfl

theorem details_ne_nil {result : SubmissionResult} (h : rows result ≠ []) : result.details ≠ [] := by
  intro hnil
  apply h
  unfold rows
  rw [hnil]
  rfl

/-- An accepted run with an initial segment has a passing line for each test. -/
theorem accepted_collectBatched {problem : Problem} {clock : Clock} {stream : ExecStream}
    (hseg : InitialSegment problem stream)
    (hstatus : (collectBatched problem clock stream (startedResult clock)).status =
      submissionStatusAccepted) {i : ℕ} (hi : i < problem.testCases.length) :
    ∃ out ∈ recordedLines problem stream, out.test = (i : ℤ) + 1 ∧ passing problem out = true := by
  obtain ⟨hrows, hcounted, -⟩ := rows_collectBatched problem clock stream
  set result := collectBatched problem clock stream (startedResult clock)
  set outs := recordedLines problem stream with houts
  have hne : result.details ≠ [] := by
    apply details_ne_nil
    rw [hrows]
    intro hnil
    have hlen := congrArg List.length hnil
    rw [List.length_append, List.length_map, List.length_map, List.length_range',
      List.length_nil] at hlen
    omega
  have hpassed := (accepted_iff_rows hcounted hne).mp hstatus
  rw [hrows] at hpassed
  have hall : problem.testCases.length ≤ outs.length := by
    -- otherwise the first missing test is a failed row
    by_contra hlt
    have hmem : missingRow (runReason problem stream).1 outs.length ∈
        (List.range' outs.length (problem.testCases.length - outs.length)).map
          (missingRow (runReason problem stream).1) :=
      List.mem_map_of_mem (List.mem_range'_1.mpr ⟨le_refl _, by omega⟩)
    exact absurd (hpassed _ (List.mem_append_right _ hmem)) Bool.false_ne_true
  have hseg' : (outs.map fun out => out.test).Perm (testNumbers outs.length) := hseg
  have hmem : (i : ℤ) + 1 ∈ outs.map fun out => out.test :=
    hseg'.mem_iff.mpr (mem_testNumbers.mpr ⟨by omega, by omega⟩)
  obtain ⟨out, hout, htest⟩ := List.mem_map.mp hmem
  refine ⟨out, hout, htest, ?_⟩
  rw [← lineRow_passed]
  exact hpassed _ (List.mem_append_left _ (List.mem_map_of_mem hout))

theorem fatalError_eq_none {outs : List BatchedTestExecOutput} (h : ∀ out ∈ outs, out.fatal = "") :
    fatalError outs = none := by
  unfold fatalError
  rw [List.find?_eq_none.mpr, Option.map_none]
  intro out hout
  simp [h out hout]

theorem recorded_eq_filter {n : ℕ} {outs : List BatchedTestExecOutput}
    (h : ∀ out ∈ outs, out.fatal = "") : recorded n outs = outs.filter (inRange n) := by
  unfold recorded
  rw [List.takeWhile_eq_self_iff.mpr]
  intro out hout
  simp [h out hout]

theorem getD_of_getElem? {problem : Problem} {i : ℕ} {tc : TestCase}
    (h : problem.testCases[i]? = some tc) : problem.testCases.getD i {} = tc := by
  rw [List.getD_eq_getElem?_getD, h, Option.getD_some]

theorem passing_iff {problem : Problem} {out : BatchedTestExecOutput} {i : ℕ} {tc : TestCase}
    (htc : problem.testCases[i]? = some tc) (htest : out.test = (i : ℤ) + 1) :
    passing problem out = true ↔
      out.error = "" ∧ compare tc.expected out.output problem.compareConfig = true := by
  have hi : (out.test - 1).toNat = i := by omega
  unfold passing
  rw [decide_eq_true_eq, hi, getD_of_getElem? htc]

/-- **A stream with one passing line for each test is accepted**, however the process
ends: all tests are processed. -/
theorem complete_collectBatched {problem : Problem} {clock : Clock} {stream : ExecStream}
    (hne : problem.testCases ≠ []) (hcarries : CarriesPassing problem stream) :
    (collectBatched problem clock stream (startedResult clock)).status =
      submissionStatusAccepted := by
  obtain ⟨⟨rawStdout, hstdout⟩, hfatal, hone⟩ := hcarries
  obtain ⟨hrows, hcounted, -⟩ := rows_collectBatched problem clock stream
  have houts : recordedLines problem stream =
      (judgeLines stream.stderr).filter (inRange problem.testCases.length) := by
    unfold recordedLines
    rw [hstdout]
    exact recorded_eq_filter hfatal
  have hpass : ∀ out ∈ recordedLines problem stream, passing problem out = true := by
    intro out hout
    obtain ⟨hmem, hpos, hle⟩ := mem_recordedLines hout
    have hi : (out.test - 1).toNat < problem.testCases.length := by omega
    have htest : out.test = ((out.test - 1).toNat : ℤ) + 1 := by omega
    obtain ⟨out', hfilter, hpass⟩ := hone _ _ (List.getElem?_eq_getElem hi)
    have hmem' : out ∈ [out'] := by
      rw [← hfilter]
      exact List.mem_filter.mpr ⟨hmem, decide_eq_true htest⟩
    obtain rfl := List.mem_singleton.mp hmem'
    exact (passing_iff (List.getElem?_eq_getElem hi) htest).mpr hpass
  have hall : problem.testCases.length ≤ (recordedLines problem stream).length := by
    have hsub : testNumbers problem.testCases.length ⊆
        (recordedLines problem stream).map fun out => out.test := by
      intro t ht
      obtain ⟨hpos, hle⟩ := mem_testNumbers.mp ht
      have hi : (t - 1).toNat < problem.testCases.length := by omega
      obtain ⟨out, hfilter, -⟩ := hone _ _ (List.getElem?_eq_getElem hi)
      have hout : out ∈ (judgeLines stream.stderr).filter
          (fun out => out.test = (((t - 1).toNat : ℕ) : ℤ) + 1) := by
        rw [hfilter]
        exact List.mem_singleton_self out
      obtain ⟨hmem, htest⟩ := List.mem_filter.mp hout
      have htest' : out.test = t := by
        have := of_decide_eq_true htest
        omega
      rw [← htest', houts]
      refine List.mem_map_of_mem (List.mem_filter.mpr ⟨hmem, ?_⟩)
      unfold inRange
      rw [decide_eq_true_eq, htest']
      exact ⟨hpos, hle⟩
    have hlen := (List.subperm_of_subset (nodup_testNumbers _) hsub).length_le
    rwa [length_testNumbers, List.length_map] at hlen
  rw [Nat.sub_eq_zero_of_le hall, List.range'_zero, List.map_nil, List.append_nil] at hrows
  have hpos : 0 < problem.testCases.length := List.length_pos_of_ne_nil hne
  refine (accepted_iff_rows hcounted (details_ne_nil ?_)).mpr ?_
  · rw [hrows]
    intro hnil
    have hlen := congrArg List.length hnil
    rw [List.length_map, List.length_nil] at hlen
    omega
  · rw [hrows]
    intro r hr
    obtain ⟨out, hout, rfl⟩ := List.mem_map.mp hr
    rw [lineRow_passed]
    exact hpass out hout

/-- **Soundness of batched runs.**  A run that reaches the execution is sound exactly
when the judge lines that are recorded (in range, before the first fatal line) are
about the tests `1, …, k` in some order. -/
theorem batched_sound_iff {problem : Problem} {clock : Clock} {prep : Preparation}
    {stream : ExecStream} {result : SubmissionResult}
    (hcompile : compileCentralSubmission prep.compile = none)
    (hrun : runSubmissionCentralBatched problem clock prep (.ok stream) = .ok result) :
    BatchedSound problem stream result ↔ InitialSegment problem stream := by
  rw [eq_collectBatched hcompile hrun]
  constructor
  · intro hsound
    exact (oneDetail_iff problem clock stream).mp hsound.oneDetail
  · intro hseg
    refine ⟨(oneDetail_iff problem clock stream).mpr hseg, ?_, ?_⟩
    · intro hstatus i tc htc
      have hi : i < problem.testCases.length := (List.getElem?_eq_some_iff.mp htc).1
      obtain ⟨out, hout, htest, hpass⟩ := accepted_collectBatched hseg hstatus hi
      exact ⟨out, (mem_recordedLines hout).1, htest, (passing_iff htc htest).mp hpass⟩
    · intro hne hcarries _
      exact complete_collectBatched hne hcarries

/-- Two tests, both with the expected value `1`. -/
def twoOnes : Problem :=
  let one : TestCase := { input := some [], expected := .int .int32 1 }
  { testCases := [one, one] }

/-- A clock that stands still. -/
def stopped : Clock := ⟨0, 0, fun _ => 0⟩

/-- A judge line that reports the output `1`. -/
def oneLine (test : String) : String := "\x7b\"test\":" ++ test ++ ",\"output\":1\x7d\n"

/-- Noise, and then the two tests in the other order. -/
def bothReported : ExecStream := ⟨.ok "", "noise\n" ++ oneLine "2" ++ oneLine "1", (0, none)⟩

/-- The first test twice and the second not at all. -/
def firstTwice : ExecStream := ⟨.ok "", oneLine "1" ++ oneLine "1", (0, none)⟩

theorem batched_sound_two :
    ∃ result, runSubmissionCentralBatched twoOnes stopped ⟨none, none⟩ (.ok bothReported) =
        .ok result ∧
      BatchedSound twoOnes bothReported result := by
  have hrun : runSubmissionCentralBatched twoOnes stopped ⟨none, none⟩ (.ok bothReported) =
      .ok _ := run_eq_ok rfl rfl (by decide +kernel)
  refine ⟨_, hrun, (batched_sound_iff rfl hrun).mpr ?_⟩
  unfold InitialSegment
  decide +kernel

/-- Two passing lines for the first test and none for the second are accepted. -/
theorem batched_sound_fails :
    ∃ result, runSubmissionCentralBatched twoOnes stopped ⟨none, none⟩ (.ok firstTwice) =
        .ok result ∧
      result.status = submissionStatusAccepted ∧ tests result = [1, 1] ∧
      ¬BatchedSound twoOnes firstTwice result := by
  have hrun : runSubmissionCentralBatched twoOnes stopped ⟨none, none⟩ (.ok firstTwice) =
      .ok _ := run_eq_ok rfl rfl (by decide +kernel)
  refine ⟨_, hrun, by decide +kernel, by decide +kernel, fun hsound => ?_⟩
  have hcount := hsound.oneDetail 1 (by decide)
  rw [length_filter_test] at hcount
  exact absurd hcount (by decide +kernel)

end Judge
