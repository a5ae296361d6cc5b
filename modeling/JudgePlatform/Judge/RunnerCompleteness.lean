/-
# Runners with one exec for each test

After a successful preparation and compilation the per-test and the stdin runner record
one detail for each test, in order, each decided by the run of its own test alone.

* `Complete` : what such a result is.
* `runners_complete` : both runners return one.
-/
import JudgePlatform.Judge.SuccessMeaning

namespace Judge

/-! ## When a test passes -/

/-- The run of a test of a function problem returns without an error, within the output
limit, and the judge line that it prints carries an accepted output and no error. -/
def PerTestPasses (problem : Problem) (tc : TestCase) (answer : ExecAnswer) : Prop :=
  answer.err = none ∧
    (truncateString (Text.trimSpace answer.stdout) maxTestOutputBytes).2 = false ∧
    ∃ out, (parseSingleTestOutput (Text.trimSpace answer.stdout)
        (Text.trimSpace answer.stderr)).1 = some out ∧
      out.error = "" ∧ compare tc.expected out.output problem.compareConfig = true

/-- The run of a test of a stdin problem returns without an error, within the output limit,
and its stdout is the expected text. -/
def StdinPasses (expectedText : String) (answer : ExecAnswer) : Prop :=
  answer.err = none ∧ (truncateString answer.stdout maxTestOutputBytes).2 = false ∧
    compareText answer.stdout expectedText = true

/-- Whether a detail counts as passed. -/
def TestResult.isPassed (tr : TestResult) : Bool := tr.passed || tr.ok

theorem isPassed_markRunError (err : GoError) (stderrForLog : String) (tr : TestResult) :
    (markRunError err stderrForLog tr).1.isPassed = false := by
  unfold markRunError
  simp only
  split_ifs <;> rfl

theorem isPassed_judgeReport (problem : Problem) (tc : TestCase)
    (stdout stderr stderrForLog : String) (truncated : Bool) (tr : TestResult) :
    (judgeReport problem tc stdout stderr stderrForLog truncated tr).1.isPassed = true ↔
      truncated = false ∧ ∃ out, (parseSingleTestOutput stdout stderr).1 = some out ∧
        out.error = "" ∧ compare tc.expected out.output problem.compareConfig = true := by
  unfold judgeReport
  cases truncated with
  | true => exact iff_of_false Bool.false_ne_true fun h => absurd h.1 (by decide)
  | false =>
    rw [if_neg Bool.false_ne_true]
    cases hparse : parseSingleTestOutput stdout stderr with
    | mk o userLogs =>
      cases o with
      | none =>
        refine iff_of_false Bool.false_ne_true ?_
        rintro ⟨-, out, hout, -⟩
        cases hout
      | some out =>
        simp only
        by_cases herror : out.error = ""
        · rw [if_neg (not_not.mpr herror)]
          show (compare tc.expected out.output problem.compareConfig ||
            compare tc.expected out.output problem.compareConfig) = true ↔ _
          rw [Bool.or_self]
          constructor
          · exact fun h => ⟨trivial, out, rfl, herror, h⟩
          · rintro ⟨-, out', hout, -, hcompare⟩
            obtain rfl := Option.some.inj hout
            exact hcompare
        · rw [if_pos herror]
          refine iff_of_false Bool.false_ne_true ?_
          rintro ⟨-, out', hout, hnone, -⟩
          obtain rfl := Option.some.inj hout
          exact herror hnone

/-- **A turn of the per-test loop.**  A test whose input cannot be marshalled is not run. -/
theorem isPassed_perTestResult (problem : Problem) (i : ℕ) (tc : TestCase) (answer : ExecAnswer) :
    (perTestResult problem i tc answer).1.isPassed = true ↔
      tc.payload.marshal.isOk = true ∧ PerTestPasses problem tc answer := by
  unfold perTestResult PerTestPasses
  cases tc.payload.marshal with
  | error e => exact iff_of_false Bool.false_ne_true fun h => absurd h.1 Bool.false_ne_true
  | ok json =>
    simp only
    cases answer.err with
    | some err =>
      rw [isPassed_markRunError]
      exact iff_of_false Bool.false_ne_true fun h => absurd h.2.1 (by simp)
    | none =>
      rw [isPassed_judgeReport]
      exact ⟨fun h => ⟨rfl, rfl, h⟩, fun h => h.2.2⟩

/-- **A turn of the stdin loop.**  A test that is not a text for a text is not run. -/
theorem isPassed_stdinResult (i : ℕ) (tc : TestCase) (answer : ExecAnswer) :
    (stdinResult i tc answer).isPassed = true ↔
      (stdinTestInput tc).isSome = true ∧
        ∃ expectedText, stdinTestExpected tc = some expectedText ∧ StdinPasses expectedText answer := by
  unfold stdinResult StdinPasses
  cases stdinTestInput tc with
  | none => exact iff_of_false Bool.false_ne_true fun h => absurd h.1 Bool.false_ne_true
  | some input =>
    cases stdinTestExpected tc with
    | none =>
      refine iff_of_false Bool.false_ne_true ?_
      rintro ⟨-, text, htext, -⟩
      cases htext
    | some expectedText =>
      simp only
      cases answer.err with
      | some err =>
        rw [isPassed_markRunError]
        refine iff_of_false Bool.false_ne_true ?_
        rintro ⟨-, text, -, herr, -⟩
        cases herr
      | none =>
        simp only
        cases htruncated : (truncateString answer.stdout maxTestOutputBytes).2 with
        | true =>
          refine iff_of_false Bool.false_ne_true ?_
          rintro ⟨-, text, -, -, hfalse, -⟩
          cases hfalse
        | false =>
          rw [if_neg Bool.false_ne_true]
          show (compareText answer.stdout expectedText || compareText answer.stdout expectedText) =
            true ↔ _
          rw [Bool.or_self]
          constructor
          · exact fun h => ⟨rfl, expectedText, rfl, trivial, rfl, h⟩
          · rintro ⟨-, text, htext, -, -, hcompare⟩
            obtain rfl := Option.some.inj htext
            exact hcompare

/-! ## The loops -/

/-- The loop over the tests of a stdin problem: one detail for each test, in order. -/
theorem stdinLoop_rows (clock : Clock) (run : ℕ → ExecAnswer) (i : ℕ) (tcs : List TestCase)
    (result : SubmissionResult) :
    rows (stdinLoop clock run i tcs result) = rows result ++
      (tcs.zipIdx i).map fun t => row (stdinResult t.2 t.1 (run t.2)).normalize := by
  induction tcs generalizing i result with
  | nil => exact (List.append_nil _).symm
  | cons tc tcs ih =>
    unfold stdinLoop
    rw [ih, rows_addTestResult, List.append_assoc, List.zipIdx_cons]
    rfl

/-! ## Complete results -/

/-- There is one detail for each test, numbered in order; it has passed when its test passes,
and the result is accepted when all do. -/
structure Complete (problem : Problem) (passes : ℕ → TestCase → Prop) (result : SubmissionResult) :
    Prop where
  tests : tests result = testNumbers problem.testCases.length
  passed : ∀ (i : ℕ) (tc : TestCase), problem.testCases[i]? = some tc →
    ∃ d, result.details[i]? = some d ∧ d.test = (i : ℤ) + 1 ∧ (d.passed = true ↔ passes i tc)
  accepted : problem.testCases ≠ [] → (result.status = submissionStatusAccepted ↔
    ∀ (i : ℕ) (tc : TestCase), problem.testCases[i]? = some tc → passes i tc)

/-- A counted result with one row for each test is complete. -/
theorem complete_of_rows {problem : Problem} {passes : ℕ → TestCase → Prop}
    {result : SubmissionResult} (turn : ℕ → TestCase → TestResult) (hcounted : Counted result)
    (hrows : rows result =
      problem.testCases.zipIdx.map fun t => row (turn t.2 t.1).normalize)
    (htest : ∀ i tc, (turn i tc).test = (i : ℤ) + 1)
    (hpasses : ∀ i tc, (turn i tc).isPassed = true ↔ passes i tc) :
    Complete problem passes result := by
  have hrow : ∀ (i : ℕ) (tc : TestCase), problem.testCases[i]? = some tc →
      ∃ d, result.details[i]? = some d ∧ d.test = (i : ℤ) + 1 ∧ (d.passed = true ↔ passes i tc) := by
    intro i tc htc
    have hget := congrArg (fun l : List (ℤ × Bool × String) => l[i]?) hrows
    unfold rows at hget
    simp only [List.getElem?_map, List.getElem?_zipIdx, htc, Option.map_some] at hget
    obtain ⟨d, hd, hrow⟩ := Option.map_eq_some_iff.mp hget
    obtain ⟨hdtest, hdpassed⟩ := Prod.ext_iff.mp hrow
    refine ⟨d, hd, ?_, ?_⟩
    · rw [show d.test = (turn (0 + i) tc).normalize.test from hdtest, TestResult.test_normalize, htest,
        zero_add]
    · rw [show d.passed = (turn (0 + i) tc).normalize.passed from (Prod.ext_iff.mp hdpassed).1,
        TestResult.normalize_passed, zero_add]
      exact hpasses i tc
  have hlength : result.details.length = problem.testCases.length := by
    have hlength := congrArg List.length hrows
    unfold rows at hlength
    rwa [List.length_map, List.length_map, List.length_zipIdx] at hlength
  refine ⟨?_, hrow, fun hne => ?_⟩
  · unfold tests testNumbers
    refine List.ext_getElem? fun i => ?_
    rw [List.getElem?_map, List.getElem?_map]
    cases htc : problem.testCases[i]? with
    | none =>
      have hi : problem.testCases.length ≤ i := List.getElem?_eq_none_iff.mp htc
      rw [List.getElem?_eq_none (by omega), List.getElem?_eq_none (by simpa using hi)]
      rfl
    | some tc =>
      obtain ⟨d, hd, htest, -⟩ := hrow i tc htc
      have hi : i < problem.testCases.length := (List.getElem?_eq_some_iff.mp htc).1
      rw [hd, List.getElem?_range' hi, Option.map_some, Option.map_some, htest]
      congr 1
      push_cast
      omega
  · have hnil : result.details ≠ [] := by
      intro hnil
      rw [hnil] at hlength
      exact hne (List.length_eq_zero_iff.mp hlength.symm)
    rw [hcounted.status, if_neg hnil, hcounted.verdict_accepted]
    constructor
    · intro hall i tc htc
      obtain ⟨d, hd, -, hiff⟩ := hrow i tc htc
      exact hiff.mp (hall d (List.mem_of_getElem? hd))
    · intro hall d hd
      obtain ⟨i, hi⟩ := List.mem_iff_getElem?.mp hd
      have hlt : i < problem.testCases.length := hlength ▸ (List.getElem?_eq_some_iff.mp hi).1
      obtain ⟨d', hd', -, hiff⟩ := hrow i _ (List.getElem?_eq_getElem hlt)
      obtain rfl := Option.some.inj (hi.symm.trans hd')
      exact hiff.mpr (hall i _ (List.getElem?_eq_getElem hlt))

/-! ## Both runners -/

/-- When test `i` of a function problem passes: it is run, and its run passes. -/
def perTestPasses (problem : Problem) (run : ℕ → ExecAnswer) (i : ℕ) (tc : TestCase) : Prop :=
  tc.payload.marshal.isOk = true ∧ PerTestPasses problem tc (run i)

/-- When test `i` of a stdin problem passes. -/
def stdinPasses (run : ℕ → ExecAnswer) (i : ℕ) (tc : TestCase) : Prop :=
  (stdinTestInput tc).isSome = true ∧
    ∃ expectedText, stdinTestExpected tc = some expectedText ∧ StdinPasses expectedText (run i)

/-- **Both runners are complete**: whether a test passes depends on its own run alone. -/
theorem runners_complete (problem : Problem) (clock : Clock) (prep : Preparation)
    (run : ℕ → ExecAnswer) (hprepare : prep.prepareFiles = none)
    (hcompile : compileCentralSubmission prep.compile = none) :
    (∃ result, runSubmissionCentralPerTest problem clock prep run = .ok result ∧
        Complete problem (perTestPasses problem run) result) ∧
      ∃ result, runSubmissionStdin problem clock prep run = .ok result ∧
        Complete problem (stdinPasses run) result := by
  constructor
  · obtain ⟨result, hrun, hrows, hcounted, -⟩ := perTest_spec problem clock run hprepare hcompile
    refine ⟨result, hrun, complete_of_rows
      (fun i tc => (perTestResult problem i tc (run i)).1) hcounted hrows ?_ ?_⟩
    · exact fun i tc => test_perTestResult problem i tc (run i)
    · exact fun i tc => isPassed_perTestResult problem i tc (run i)
  · obtain ⟨-, hcounted⟩ := stdinLoop_spec clock run 0 problem.testCases (startedResult clock)
    have hrows := stdinLoop_rows clock run 0 problem.testCases (startedResult clock)
    obtain ⟨hfinish, hfinishCounted, -⟩ :=
      finish_updateStatus (stdinLoop clock run 0 problem.testCases (startedResult clock)) clock
    refine ⟨_, ?_, complete_of_rows (fun i tc => stdinResult i tc (run i))
      (hfinishCounted (hcounted (counted_startedResult clock))) (hfinish.trans hrows) ?_ ?_⟩
    · unfold runSubmissionStdin
      rw [hprepare, hcompile]
    · exact fun i tc => test_stdinResult i tc (run i)
    · exact fun i tc => isPassed_stdinResult i tc (run i)

/-- A text for each of two tests. -/
def twoTexts : Problem where
  problemType := "stdin"
  testCases := [⟨some [.string "1"], .string "one", false, false⟩,
    ⟨some [.string "2"], .string "two", false, false⟩]

/-- A program that answers the first test wrong and the second right. -/
def answerTwo (_ : ℕ) : ExecAnswer := ⟨"two\n", "", none⟩

theorem runners_complete_two :
    ∃ result, runSubmissionStdin twoTexts stopped ⟨none, none⟩ answerTwo = .ok result ∧
      Complete twoTexts (stdinPasses answerTwo) result :=
  (runners_complete twoTexts stopped ⟨none, none⟩ answerTwo rfl rfl).2

end Judge
