/-
# Verdict aggregation

A result that is built with `AddTestResult` alone, from a fresh one: each count, the
slowest time, the first failure and the status in terms of the list of its details.

* `Aggregated` : what holds of a result after every added detail.
* `aggregate_spec` : the closed form.
-/
import JudgePlatform.Judge.Results

namespace Judge

/-! ## In terms of the details -/

/-- The results added one after the other. -/
def aggregate (trs : List TestResult) : SubmissionResult :=
  trs.foldl SubmissionResult.addTestResult newSubmissionResult

/-- The largest of the times, or 0 if none is positive. -/
def slowest (ds : List TestResult) : ℤ := (ds.map fun d => d.timeMs).foldr max 0

/-- The number of the first test that has not passed, or -1. -/
def firstFailure (ds : List TestResult) : ℤ :=
  ((ds.find? fun d => !d.passed).map fun d => d.test).getD (-1)

theorem slowest_append (ds : List TestResult) (d : TestResult) :
    slowest (ds ++ [d]) = if slowest ds < d.timeMs then d.timeMs else slowest ds := by
  have hmax : slowest (ds ++ [d]) = max (slowest ds) d.timeMs := by
    induction ds with
    | nil => exact max_comm _ _
    | cons e ds ih =>
      show max e.timeMs (slowest (ds ++ [d])) = max (max e.timeMs (slowest ds)) d.timeMs
      rw [ih, max_assoc]
  rw [hmax]
  split_ifs with h
  · exact max_eq_right h.le
  · exact max_eq_left (not_lt.mp h)

theorem firstFailure_append {ds : List TestResult} (d : TestResult)
    (hpos : ∀ e ∈ ds, 0 < e.test) :
    firstFailure (ds ++ [d]) =
      if d.passed = false ∧ firstFailure ds = -1 then d.test else firstFailure ds := by
  unfold firstFailure
  rw [List.find?_append]
  cases hfind : ds.find? fun e => !e.passed with
  | some e =>
    have hne : e.test ≠ -1 := by
      have := hpos e (List.mem_of_find?_eq_some hfind)
      omega
    rw [if_neg fun h => hne h.2]
    rfl
  | none =>
    cases hpassed : d.passed with
    | true => simp [hpassed]
    | false => simp [hpassed]

/-! ## One more detail -/

/-- Counts, slowest time, first failure and status of a result are those of its details,
whose tests are numbered from 1. -/
structure Aggregated (sr : SubmissionResult) : Prop extends Counted sr where
  maxTimeMs : sr.maxTimeMs = slowest sr.details
  firstFailedTest : sr.firstFailedTest = firstFailure sr.details
  positive : ∀ d ∈ sr.details, 0 < d.test

theorem aggregated_newSubmissionResult : Aggregated newSubmissionResult :=
  ⟨counted_newSubmissionResult, rfl, rfl, fun _ h => absurd h List.not_mem_nil⟩

theorem TestResult.normalize_same (tr : TestResult) :
    tr.normalize.test = tr.test ∧ tr.normalize.timeMs = tr.timeMs := by
  unfold TestResult.normalize
  split_ifs
  · exact ⟨rfl, rfl⟩
  · exact ⟨rfl, rfl⟩
  · exact ⟨rfl, rfl⟩

/-- **Adding a detail keeps a result aggregated.** -/
theorem Aggregated.addTestResult {sr : SubmissionResult} (h : Aggregated sr) {tr : TestResult}
    (hpos : 0 < tr.test) : Aggregated (sr.addTestResult tr) := by
  obtain ⟨htest, htime⟩ := tr.normalize_same
  have hdetails := details_addTestResult sr tr
  refine ⟨h.toCounted.addTestResult tr, ?_, ?_, ?_⟩
  · rw [hdetails, slowest_append, ← h.maxTimeMs]
    unfold SubmissionResult.addTestResult
    obtain ⟨status, heq⟩ := updateStatus_eq _
    rw [heq]
  · rw [hdetails, firstFailure_append _ h.positive, ← h.firstFailedTest]
    unfold SubmissionResult.addTestResult
    obtain ⟨status, heq⟩ := updateStatus_eq _
    rw [heq]
  · intro d hd
    rw [hdetails] at hd
    rcases List.mem_append.mp hd with hd | hd
    · exact h.positive d hd
    · rw [List.mem_singleton.mp hd, htest]
      exact hpos

/-- Adding a list of details. -/
theorem Aggregated.foldl {sr : SubmissionResult} (h : Aggregated sr) {trs : List TestResult}
    (hpos : ∀ tr ∈ trs, 0 < tr.test) :
    Aggregated (trs.foldl SubmissionResult.addTestResult sr) ∧
      (trs.foldl SubmissionResult.addTestResult sr).details =
        sr.details ++ trs.map TestResult.normalize := by
  induction trs generalizing sr with
  | nil => exact ⟨h, (List.append_nil _).symm⟩
  | cons tr trs ih =>
    obtain ⟨htr, hpos⟩ := List.forall_mem_cons.mp hpos
    obtain ⟨hagg, hdetails⟩ := ih (h.addTestResult htr) hpos
    refine ⟨hagg, ?_⟩
    rw [List.foldl_cons, hdetails, details_addTestResult, List.append_assoc]
    rfl

theorem aggregated_aggregate {trs : List TestResult} (hpos : ∀ tr ∈ trs, 0 < tr.test) :
    Aggregated (aggregate trs) ∧ (aggregate trs).details = trs.map TestResult.normalize :=
  aggregated_newSubmissionResult.foldl hpos

/-! ## The closed form -/

/-- The order of the details does not matter to the verdict. -/
theorem verdict_perm {ds ds' : List TestResult} (h : ds.Perm ds') : verdict ds = verdict ds' := by
  have herror : ∀ errorType, hasErrorType ds errorType = hasErrorType ds' errorType := by
    intro errorType
    unfold hasErrorType
    exact h.any_eq
  unfold verdict
  rw [herror, herror, herror, h.all_eq]

/-- Counts and status of a result. -/
def SubmissionResult.summary (sr : SubmissionResult) : ℤ × ℤ × ℤ × ℤ × String :=
  (sr.total, sr.totalCount, sr.passed, sr.passedCount, sr.status)

/-- **Verdict aggregation.**  `verdict` is the first of: a timeout, a memory error, a runtime
error, all passed, and a wrong answer. -/
theorem aggregate_spec (trs : List TestResult) (hpos : ∀ tr ∈ trs, 0 < tr.test) :
    let sr := aggregate trs
    let ds := trs.map TestResult.normalize
    sr.total = trs.length ∧ sr.totalCount = trs.length ∧
      sr.passed = (ds.filter fun d => d.passed).length ∧
      sr.passedCount = (ds.filter fun d => d.passed).length ∧
      sr.maxTimeMs = slowest trs ∧ sr.firstFailedTest = firstFailure ds ∧
      (trs ≠ [] → sr.status = verdict ds) ∧
      ∀ trs', trs.Perm trs' → (aggregate trs').summary = sr.summary := by
  obtain ⟨h, hdetails⟩ := aggregated_aggregate hpos
  intro sr ds
  have htotal : sr.total = trs.length := by
    rw [h.total, hdetails, List.length_map]
  have hpassed : sr.passed = (ds.filter fun d => d.passed).length := by
    rw [h.passed, hdetails]
  have hstatus : ∀ {trs : List TestResult}, (∀ tr ∈ trs, 0 < tr.test) →
      (aggregate trs).status =
        if trs = [] then submissionStatusAccepted else verdict (trs.map TestResult.normalize) := by
    intro trs hpos
    obtain ⟨h, hdetails⟩ := aggregated_aggregate hpos
    rw [h.status, hdetails]
    simp only [List.map_eq_nil_iff]
  have htimes : slowest ds = slowest trs := by
    unfold slowest
    rw [List.map_map]
    congr 1
    exact List.map_congr_left fun tr _ => tr.normalize_same.2
  refine ⟨htotal, h.totalCount.trans htotal, hpassed, h.passedCount.trans hpassed, ?_, ?_, ?_, ?_⟩
  · rw [h.maxTimeMs, hdetails]
    exact htimes
  · rw [h.firstFailedTest, hdetails]
  · intro hne
    rw [hstatus hpos, if_neg hne]
  · intro trs' hperm
    have hpos' : ∀ tr ∈ trs', 0 < tr.test := fun tr htr => hpos tr (hperm.mem_iff.mpr htr)
    obtain ⟨h', hdetails'⟩ := aggregated_aggregate hpos'
    have hds : ds.Perm (trs'.map TestResult.normalize) := hperm.map _
    have htotal' : (aggregate trs').total = sr.total := by
      rw [h'.total, hdetails', List.length_map, htotal, hperm.length_eq]
    have hpassed' : (aggregate trs').passed = sr.passed := by
      rw [h'.passed, hdetails', hpassed, (hds.filter _).length_eq]
    have hstatus' : (aggregate trs').status = sr.status := by
      have hnil : trs' = [] ↔ trs = [] := by
        rw [← List.length_eq_zero_iff, ← List.length_eq_zero_iff, hperm.length_eq]
      rw [hstatus hpos', hstatus hpos, verdict_perm hds]
      simp only [hnil]
    unfold SubmissionResult.summary
    rw [h'.totalCount, h'.passedCount, h.totalCount, h.passedCount, htotal', hpassed', hstatus']

/-- A failure between two passed tests, the last of which is the slowest. -/
def failureBetween : List TestResult :=
  [{ test := 1, ok := true, timeMs := 3 }, { test := 2 }, { test := 3, passed := true, timeMs := 7 }]

theorem aggregate_spec_three :
    (aggregate failureBetween).passed = 2 ∧ (aggregate failureBetween).maxTimeMs = 7 ∧
      (aggregate failureBetween).firstFailedTest = 2 ∧
      (aggregate failureBetween).status = submissionStatusWrongAnswer := by
  obtain ⟨-, -, hpassed, -, htime, hfirst, hstatus, -⟩ :=
    aggregate_spec failureBetween (by simp [failureBetween])
  rw [hpassed, htime, hfirst, hstatus (by simp [failureBetween])]
  decide +kernel

end Judge
