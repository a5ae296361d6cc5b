/-
# What Success means

When `processAndStoreResults` stores the status Success, and what the stored result then
says about the tests.

* `AcceptedBy` : what makes `UpdateStatus` derive Accepted.
* `printed_meaningful_iff` : for any stdout, when Success means that tests have passed.
* `success_meaningful` : the same together with the runs of the three runners.
-/
import JudgePlatform.Judge.PathAgreement
import JudgePlatform.Judge.StdinRunner
import JudgePlatform.Judge.StoredResults

namespace Judge

/-! ## The derived status -/

/-- The details after the loop of `NormalizeCounts`. -/
def shown (ds : List TestResult) : List TestResult := (normalizeDetails 0 0 ds).1

theorem normalizeDetails_fst (i j : ℕ) (m n : ℤ) (ds : List TestResult) :
    (normalizeDetails i m ds).1 = (normalizeDetails j n ds).1 := by
  induction ds generalizing i j m n with
  | nil => rfl
  | cons d ds ih =>
    simp only [normalizeDetails]
    split_ifs <;> first | rfl | exact congrArg (d.normalize :: ·) (ih _ _ _ _)

theorem shown_cons (d : TestResult) (ds : List TestResult) :
    shown (d :: ds) = d.normalize :: if d.normalize.passed then shown ds else ds := by
  unfold shown
  rw [normalizeDetails]
  simp only
  cases hpassed : d.normalize.passed with
  | true =>
    simp only [if_true]
    rw [normalizeDetails_fst]
  | false => rfl

theorem shown_eq_nil (ds : List TestResult) : shown ds = [] ↔ ds = [] := by
  cases ds with
  | nil => exact Iff.rfl
  | cons d ds =>
    rw [shown_cons]
    exact iff_of_false (List.cons_ne_nil _ _) (List.cons_ne_nil _ _)

theorem TestResult.test_normalize (tr : TestResult) : tr.normalize.test = tr.test := by
  unfold TestResult.normalize
  split_ifs <;> rfl

theorem tests_shown (ds : List TestResult) :
    (shown ds).map (fun d => d.test) = ds.map fun d => d.test := by
  induction ds with
  | nil => rfl
  | cons d ds ih =>
    rw [shown_cons, List.map_cons, List.map_cons, TestResult.test_normalize]
    split_ifs
    · rw [ih]
    · rfl

/-- The details shown have all passed just when every detail says so, in either way. -/
theorem passed_shown_iff (ds : List TestResult) :
    (∀ d ∈ shown ds, d.passed = true) ↔ ∀ d ∈ ds, d.passed = true ∨ d.ok = true := by
  induction ds with
  | nil => exact ⟨fun _ d h => absurd h List.not_mem_nil, fun _ d h => absurd h List.not_mem_nil⟩
  | cons d ds ih =>
    have hd : d.normalize.passed = true ↔ d.passed = true ∨ d.ok = true := by
      rw [TestResult.normalize_passed, Bool.or_eq_true]
    rw [shown_cons, List.forall_mem_cons, List.forall_mem_cons, ← hd]
    refine and_congr_right fun hpassed => ?_
    rw [if_pos hpassed, ih]

theorem shown_shown (ds : List TestResult) : shown (shown ds) = shown ds := by
  induction ds with
  | nil => rfl
  | cons d ds ih =>
    rw [shown_cons, shown_cons, TestResult.normalize_normalize]
    split_ifs with h
    · rw [ih]
    · rfl

/-- What makes `UpdateStatus` leave or set Accepted: no detail with an error of its own, and
counts that agree or, without a count, the status Accepted before. -/
def AcceptedBy (details : List TestResult) (totalCount passedCount : ℤ) (status : String) : Prop :=
  scanErrors details false false = some (false, false) ∧
    (0 < totalCount ∧ passedCount = totalCount ∨
      ¬0 < totalCount ∧ status = submissionStatusAccepted)

theorem updateStatus_accepted_iff (sr : SubmissionResult) :
    sr.updateStatus.status = submissionStatusAccepted ↔
      AcceptedBy sr.details sr.totalCount sr.passedCount sr.status := by
  have htime : submissionStatusTimeLimitExceeded ≠ submissionStatusAccepted := by decide
  have hmemory : submissionStatusMemoryLimitExceeded ≠ submissionStatusAccepted := by decide
  have hruntime : submissionStatusRuntimeError ≠ submissionStatusAccepted := by decide
  have hwrong : submissionStatusWrongAnswer ≠ submissionStatusAccepted := by decide
  unfold SubmissionResult.updateStatus AcceptedBy
  cases hscan : scanErrors sr.details false false with
  | none => simpa using htime
  | some flags =>
    obtain ⟨runtime, memory⟩ := flags
    cases memory with
    | true => simpa using hmemory
    | false =>
      cases runtime with
      | true => simpa using hruntime
      | false =>
        simp only [Bool.false_eq_true, if_false, true_and]
        split_ifs with hall htotal
        · exact iff_of_true rfl (Or.inl hall)
        · refine iff_of_false hwrong ?_
          rintro (h | h)
          · exact hall h
          · exact h.1 htotal
        · constructor
          · exact fun h => Or.inr ⟨htotal, h⟩
          · rintro (h | h)
            · exact absurd h.1 htotal
            · exact h.2

/-! ## Any stdout -/

/-- The counts of a decoded result, each filled from its alias. -/
def SubmissionResult.counts (sr : SubmissionResult) : ℤ × ℤ :=
  (backfill sr.totalCount sr.total, backfill sr.passedCount sr.passed)

theorem details_normalizeCounts (sr : SubmissionResult) :
    sr.normalizeCounts.details = shown sr.details := by
  unfold SubmissionResult.normalizeCounts
  exact details_updateStatus _

theorem counts_updateStatus (sr : SubmissionResult) : sr.updateStatus.counts = sr.counts := by
  obtain ⟨status, h⟩ := updateStatus_eq sr
  rw [h]
  rfl

theorem backfill_backfill (a b : ℤ) : backfill (backfill a b) (backfill b a) = backfill a b := by
  unfold backfill
  split_ifs with h h' <;> omega

theorem counts_normalizeCounts (sr : SubmissionResult) : sr.normalizeCounts.counts = sr.counts := by
  unfold SubmissionResult.normalizeCounts
  rw [counts_updateStatus]
  exact Prod.ext (backfill_backfill _ _) (backfill_backfill _ _)

theorem normalizeCounts_accepted_iff (sr : SubmissionResult) :
    sr.normalizeCounts.status = submissionStatusAccepted ↔
      AcceptedBy (shown sr.details) sr.counts.1 sr.counts.2 sr.status := by
  unfold SubmissionResult.normalizeCounts
  exact updateStatus_accepted_iff _

/-- Normalizing twice derives the same verdict. -/
theorem normalizeCounts_twice (sr : SubmissionResult) (executionPath : String) :
    ({ sr.normalizeCounts with executionPath := executionPath }.normalizeCounts).status =
        submissionStatusAccepted ↔ sr.normalizeCounts.status = submissionStatusAccepted := by
  rw [normalizeCounts_accepted_iff]
  show AcceptedBy (shown sr.normalizeCounts.details) sr.normalizeCounts.counts.1
    sr.normalizeCounts.counts.2 sr.normalizeCounts.status ↔ _
  rw [details_normalizeCounts, shown_shown, counts_normalizeCounts]
  constructor
  · rintro ⟨hscan, hcounts | hnone⟩
    · exact (normalizeCounts_accepted_iff sr).mpr ⟨hscan, Or.inl hcounts⟩
    · exact hnone.2
  · intro h
    obtain ⟨hscan, hcounts | hnone⟩ := (normalizeCounts_accepted_iff sr).mp h
    · exact ⟨hscan, Or.inl hcounts⟩
    · exact ⟨hscan, Or.inr ⟨hnone.1, h⟩⟩

/-- What Success has to mean: the stored result has details, they have all passed, and they
cover the tests `1, …, n` of a problem, where there is one. -/
def Meaningful (n : Option ℕ) (o : Outcome) : Prop :=
  o.status = .success → ∃ sr, o.testResult = some sr ∧ sr.details ≠ [] ∧
    (∀ d ∈ sr.details, d.passed = true) ∧ ∀ k, n = some k → ∀ t ∈ testNumbers k, t ∈ tests sr

/-- A result as it was decoded, before its counts are derived again. -/
def decoded (stdout : String) : SubmissionResult × Bool :=
  GoStruct.unmarshal submissionResult.decode stdout {}

/-- There are details, and each says that it has passed. -/
def Convincing (sr : SubmissionResult) : Prop :=
  sr.details ≠ [] ∧ ∀ d ∈ sr.details, d.passed = true ∨ d.ok = true

/-- The decoded result is accepted only with details that have all passed. -/
def Sound (stdout : String) : Prop :=
  stdout ≠ "" → (decoded stdout).2 = true →
    AcceptedBy (shown (decoded stdout).1.details) (decoded stdout).1.counts.1
      (decoded stdout).1.counts.2 (decoded stdout).1.status → Convincing (decoded stdout).1

theorem unmarshalResult_eq (stdout : String) :
    unmarshalResult stdout =
      if (decoded stdout).2 then some (decoded stdout).1.normalizeCounts else none := rfl

/-- What is stored of a stdout as a success, and the result that is stored with it. -/
theorem outcome_success_iff (executionPath stdout stderr : String) (execErr : Option GoError)
    (decodeError : String) :
    let o := outcome executionPath stdout stderr execErr decodeError
    (o.status = .success ↔ stdout ≠ "" ∧ (decoded stdout).2 = true ∧
      AcceptedBy (shown (decoded stdout).1.details) (decoded stdout).1.counts.1
        (decoded stdout).1.counts.2 (decoded stdout).1.status) ∧
    (o.status = .success → ∃ sr, o.testResult = some sr ∧
      sr.details = shown (decoded stdout).1.details) := by
  have herror : ¬Api.SubmissionStatus.error = .success := by decide
  intro o
  simp only [o]
  unfold outcome
  by_cases hout : stdout ≠ ""
  · rw [if_pos hout, unmarshalResult_eq]
    cases hok : (decoded stdout).2 with
    | false =>
      rw [if_neg (by simp)]
      simp only
      refine ⟨iff_of_false herror fun h => ?_, fun h => absurd h herror⟩
      cases h.2.1
    | true =>
      rw [if_pos rfl]
      simp only
      constructor
      · rw [storedStatus_eq_success, normalizeCounts_twice, normalizeCounts_accepted_iff]
        exact ⟨fun h => ⟨hout, trivial, h⟩, fun h => h.2.2⟩
      · refine fun _ => ⟨_, rfl, ?_⟩
        rw [details_normalizeCounts]
        exact (congrArg shown (details_normalizeCounts _)).trans (shown_shown _)
  · rw [if_neg hout]
    cases execErr with
    | some err => exact ⟨iff_of_false herror fun h => hout h.1, fun h => absurd h herror⟩
    | none => exact ⟨iff_of_false herror fun h => hout h.1, fun h => absurd h herror⟩

/-- **When Success means that tests have passed**, for any stdout. -/
theorem printed_meaningful_iff (executionPath stdout stderr : String) (execErr : Option GoError)
    (decodeError : String) :
    Meaningful none (outcome executionPath stdout stderr execErr decodeError) ↔ Sound stdout := by
  obtain ⟨hsuccess, hstored⟩ := outcome_success_iff executionPath stdout stderr execErr decodeError
  constructor
  · intro h hout hok haccepted
    obtain ⟨sr, hsr, hne, hpassed, -⟩ := h (hsuccess.mpr ⟨hout, hok, haccepted⟩)
    obtain ⟨sr', hsr', hdetails⟩ := hstored (hsuccess.mpr ⟨hout, hok, haccepted⟩)
    obtain rfl := Option.some.inj (hsr.symm.trans hsr')
    rw [hdetails] at hne hpassed
    exact ⟨fun hnil => hne ((shown_eq_nil _).mpr hnil), (passed_shown_iff _).mp hpassed⟩
  · intro h hst
    obtain ⟨hout, hok, haccepted⟩ := hsuccess.mp hst
    obtain ⟨hne, hpassed⟩ := h hout hok haccepted
    obtain ⟨sr, hsr, hdetails⟩ := hstored hst
    refine ⟨sr, hsr, ?_, ?_, fun k hk => by cases hk⟩
    · rw [hdetails]
      exact fun hnil => hne ((shown_eq_nil _).mp hnil)
    · rw [hdetails]
      exact (passed_shown_iff _).mpr hpassed

/-! ## The result of a runner -/

theorem eq_of_parseInt64_ofInt {n k : ℤ} (h : JsonNumber.parseInt64 (JsonNumber.ofInt n) = some k) :
    k = n := by
  unfold JsonNumber.parseInt64 JsonNumber.ofInt at h
  dsimp only at h
  rw [Text.parseInt_intDigits] at h
  dsimp only at h
  split_ifs at h
  exact (Option.some.inj h).symm

section Trip

open GoRecord

variable {sr : SubmissionResult} {tr : TestResult} {j : Json}

/-- An integer that was written and read. -/
theorem int_read {n k : ℤ} {v : Json} (hv : int.encode jsonEncoding n = .ok v)
    (hok : (int.decode v k).2 = true) : (int.decode v k).1 = n := by
  obtain rfl := Except.ok.inj hv
  show (GoStruct.int (.num (JsonNumber.ofInt n)) k).1 = n
  change (GoStruct.int (.num (JsonNumber.ofInt n)) k).2 = true at hok
  unfold GoStruct.int at hok ⊢
  simp only at hok ⊢
  cases hparse : JsonNumber.parseInt64 (JsonNumber.ofInt n) with
  | none =>
    rw [hparse] at hok
    cases hok
  | some m => exact eq_of_parseInt64_ofInt hparse

/-- The fields of a detail do not touch each other. -/
theorem testResultFields_other {g : TaggedField TestResult} (hg : g ∈ testResultFields) :
    (g.name ≠ "test" → ∀ v t, (g.store v t).1.test = t.test) ∧
      (g.name ≠ "passed" → ∀ v t, (g.store v t).1.passed = t.passed) ∧
        (g.name ≠ "ok" → ∀ v t, (g.store v t).1.ok = t.ok) := by
  simp only [testResultFields, List.mem_cons, List.not_mem_nil, or_false] at hg
  rcases hg with rfl | rfl | rfl | rfl | rfl | rfl | rfl | rfl | rfl | rfl | rfl | rfl | rfl | rfl |
    rfl
  all_goals
    refine ⟨fun hne v t => ?_, fun hne v t => ?_, fun hne v t => ?_⟩
    all_goals first | rfl | exact absurd rfl hne

/-- What survives of the detail of a test. -/
theorem detail_read (hj : (record testResultFields).encode jsonEncoding tr = .ok j)
    (hok : ((record testResultFields).decode j {}).2 = true) :
    let tr' := ((record testResultFields).decode j {}).1
    tr'.test = tr.test ∧ tr'.passed = tr.passed ∧ tr'.ok = tr.ok := by
  refine ⟨?_, ?_, ?_⟩
  · obtain ⟨v, hv, hget, hfits⟩ := get_decode_always (fun d : TestResult => d.test)
      nodup_testResultFields (List.getElem_mem (n := 0) (by decide)) (fun _ _ => rfl)
      (fun g hg => (testResultFields_other hg).1) hj {}
    exact hget.trans (int_read hv (hfits hok))
  · obtain ⟨v, hv, hget, -⟩ := get_decode_always (fun d : TestResult => d.passed)
      nodup_testResultFields (List.getElem_mem (n := 1) (by decide)) (fun _ _ => rfl)
      (fun g hg => (testResultFields_other hg).2.1) hj {}
    obtain rfl := Except.ok.inj hv
    exact hget
  · rcases get_decode_omitEmpty (fun d : TestResult => d.ok)
      nodup_testResultFields (List.getElem_mem (n := 2) (by decide)) (fun _ _ => rfl)
      (fun g hg => (testResultFields_other hg).2.2) hj {} with ⟨hempty, hget⟩ | ⟨-, v, hv, hget, -⟩
    · refine hget.trans ?_
      change (!tr.ok) = true at hempty
      exact (by simpa using hempty : tr.ok = false).symm
    · obtain rfl := Except.ok.inj hv
      exact hget

/-- The fields of a result that the verdict reads. -/
theorem submissionResultFields_other {g : TaggedField SubmissionResult}
    (hg : g ∈ submissionResultFields) :
    (g.name ≠ "status" → ∀ v t, (g.store v t).1.status = t.status) ∧
      (g.name ≠ "passed" → ∀ v t, (g.store v t).1.passed = t.passed) ∧
      (g.name ≠ "passedCount" → ∀ v t, (g.store v t).1.passedCount = t.passedCount) ∧
      (g.name ≠ "total" → ∀ v t, (g.store v t).1.total = t.total) ∧
      (g.name ≠ "totalCount" → ∀ v t, (g.store v t).1.totalCount = t.totalCount) ∧
      (g.name ≠ "details" → ∀ v t, (g.store v t).1.details = t.details) := by
  simp only [submissionResultFields, List.mem_cons, List.not_mem_nil, or_false] at hg
  rcases hg with rfl | rfl | rfl | rfl | rfl | rfl | rfl | rfl | rfl | rfl | rfl | rfl | rfl | rfl |
    rfl
  all_goals
    refine ⟨fun hne v t => ?_, fun hne v t => ?_, fun hne v t => ?_, fun hne v t => ?_,
      fun hne v t => ?_, fun hne v t => ?_⟩
    all_goals first | rfl | exact absurd rfl hne

/-- What the verdict and its meaning read of a detail. -/
def said (d : TestResult) : ℤ × Bool × Bool := (d.test, d.passed, d.ok)

/-- **What survives of a result** that was written and read. -/
theorem result_read (hj : sr.toJson = .ok j) (hok : (submissionResult.decode j {}).2 = true) :
    let sr' := (submissionResult.decode j {}).1
    sr'.status = sr.status ∧ sr'.counts = sr.counts ∧ sr'.details.map said = sr.details.map said := by
  have hint : ∀ (get : SubmissionResult → ℤ) (set : SubmissionResult → ℤ → SubmissionResult)
      (name : String), always name get set int ∈ submissionResultFields →
      (∀ t x, get (set t x) = x) →
      (∀ g ∈ submissionResultFields, g.name ≠ name → ∀ v t, get (g.store v t).1 = get t) →
      get (submissionResult.decode j {}).1 = get sr := by
    intro get set name hmem hset hother
    obtain ⟨v, hv, hget, hfits⟩ :=
      get_decode_always get nodup_submissionResultFields hmem hset hother hj {}
    exact hget.trans (int_read hv (hfits hok))
  refine ⟨?_, ?_, ?_⟩
  · obtain ⟨v, hv, hget, -⟩ := get_decode_always (fun r : SubmissionResult => r.status)
      nodup_submissionResultFields (List.getElem_mem (n := 0) (by decide)) (fun _ _ => rfl)
      (fun g hg => (submissionResultFields_other hg).1) hj {}
    obtain rfl := Except.ok.inj hv
    exact hget
  · have hpassed := hint (fun r => r.passed) _ "passed" (List.getElem_mem (n := 3) (by decide))
      (fun _ _ => rfl) fun g hg => (submissionResultFields_other hg).2.1
    have hpassedCount := hint (fun r => r.passedCount) _ "passedCount"
      (List.getElem_mem (n := 4) (by decide)) (fun _ _ => rfl)
      fun g hg => (submissionResultFields_other hg).2.2.1
    have htotal := hint (fun r => r.total) _ "total" (List.getElem_mem (n := 5) (by decide))
      (fun _ _ => rfl) fun g hg => (submissionResultFields_other hg).2.2.2.1
    have htotalCount := hint (fun r => r.totalCount) _ "totalCount"
      (List.getElem_mem (n := 6) (by decide)) (fun _ _ => rfl)
      fun g hg => (submissionResultFields_other hg).2.2.2.2.1
    unfold SubmissionResult.counts
    rw [hpassed, hpassedCount, htotal, htotalCount]
  · rcases get_decode_omitEmpty (fun r : SubmissionResult => r.details)
      nodup_submissionResultFields (List.getElem_mem (n := 9) (by decide)) (fun _ _ => rfl)
      (fun g hg => (submissionResultFields_other hg).2.2.2.2.2) hj {} with
      ⟨hempty, hget⟩ | ⟨-, v, hv, hget, hfits⟩
    · have hnil : sr.details = [] := List.isEmpty_iff.mp hempty
      rw [hnil]
      exact congrArg (List.map said) hget
    · refine (congrArg (List.map said) hget).trans ?_
      refine map_decode_slice said ?_ hv (hfits hok)
      intro d j hd hdok
      obtain ⟨htest, hpassed, hdok'⟩ := detail_read hd hdok
      unfold said
      rw [htest, hpassed, hdok']

end Trip

/-! ## The end of a run -/

/-- What `processSubmission` stores of the end of a runner; after an error, and when the
result cannot be marshalled, it stores nothing. -/
def storedRun (decodeError : String) : Except GoError SubmissionResult → Option Outcome
  | .error _ => none
  | .ok result =>
    match result.normalizeCounts.toJson with
    | .error _ => none
    | .ok json =>
      some (outcome executionPathCentral (String.ofList (json.print Json.goEscape)) "" none
        decodeError)

/-- Whatever is stored of a run, Success has its meaning for the tests of the problem. -/
def MeaningfulRun (problem : Problem) (r : Except GoError SubmissionResult) : Prop :=
  ∀ decodeError o, storedRun decodeError r = some o →
    Meaningful (some problem.testCases.length) o

theorem passed_of_said {ds ds' : List TestResult} (h : ds.map said = ds'.map said) :
    (∀ d ∈ ds, d.passed = true ∨ d.ok = true) → ∀ d ∈ ds', d.passed = true ∨ d.ok = true := by
  intro hds d hd
  have hmem : said d ∈ ds.map said := h ▸ List.mem_map_of_mem hd
  obtain ⟨d', hd', heq⟩ := List.mem_map.mp hmem
  obtain ⟨hpassed, hok⟩ := Prod.ext_iff.mp (Prod.ext_iff.mp heq).2
  have hsaid := hds d' hd'
  rwa [show d'.passed = d.passed from hpassed, show d'.ok = d.ok from hok] at hsaid

/-- A result whose status is a success, and what is stored of it. -/
theorem storedRun_success {decodeError : String} {sr : SubmissionResult} {o : Outcome}
    (h : storedRun decodeError (.ok sr) = some o) (hstatus : o.status = .success) :
    (0 < sr.counts.1 ∧ sr.counts.2 = sr.counts.1 ∨
      ¬0 < sr.counts.1 ∧ sr.normalizeCounts.status = submissionStatusAccepted) ∧
    ∃ stored, o.testResult = some stored ∧ tests stored = tests sr ∧
      ((∀ d ∈ sr.details, d.passed = true) → ∀ d ∈ stored.details, d.passed = true) := by
  unfold storedRun at h
  cases hjson : sr.normalizeCounts.toJson with
  | error e =>
    simp only [hjson] at h
    cases h
  | ok j =>
    simp only [hjson] at h
    obtain rfl := Option.some.inj h
    obtain ⟨hsuccess, hstored⟩ := outcome_success_iff executionPathCentral
      (String.ofList (j.print Json.goEscape)) "" none decodeError
    obtain ⟨-, hok, haccepted⟩ := hsuccess.mp hstatus
    obtain ⟨stored, htestResult, hdetails⟩ := hstored hstatus
    have hdecoded : decoded (String.ofList (j.print Json.goEscape)) =
        submissionResult.decode j {} := by
      unfold decoded GoStruct.unmarshal
      rw [Json.parse_print]
    rw [hdecoded] at hok haccepted hdetails
    obtain ⟨hread, hcounts, hsaid⟩ := result_read hjson hok
    rw [hread, hcounts, counts_normalizeCounts] at haccepted
    rw [details_normalizeCounts] at hsaid
    refine ⟨haccepted.2, stored, htestResult, ?_, ?_⟩
    · unfold tests
      rw [hdetails, tests_shown, ← tests_shown sr.details]
      have hfst := congrArg (List.map Prod.fst) hsaid
      rwa [List.map_map, List.map_map] at hfst
    · intro hpassed
      rw [hdetails, passed_shown_iff]
      refine passed_of_said hsaid.symm fun d hd => Or.inl ?_
      exact (passed_shown_iff _).mpr (fun d hd => Or.inl (hpassed d hd)) d hd

/-- The counts of a result whose counts are in line. -/
theorem Counted.counts_eq {sr : SubmissionResult} (h : Counted sr) :
    sr.counts = (sr.totalCount, sr.passedCount) := by
  unfold SubmissionResult.counts backfill
  rw [h.totalCount, h.passedCount, ite_self, ite_self]

/-- **A result of tests** that is stored as a success: all details have passed. -/
theorem meaningful_of_counted {problem : Problem} {sr : SubmissionResult} (h : Counted sr)
    (hne : sr.details ≠ [])
    (hcovers : (∀ d ∈ sr.details, d.passed = true) →
      ∀ t ∈ testNumbers problem.testCases.length, t ∈ tests sr) :
    MeaningfulRun problem (.ok sr) := by
  intro decodeError o hstored hstatus
  obtain ⟨hcounts, stored, htestResult, htests, hpassed⟩ := storedRun_success hstored hstatus
  have hpos : 0 < sr.totalCount := by
    rw [h.totalCount, h.total]
    exact_mod_cast List.length_pos_of_ne_nil hne
  rw [h.counts_eq] at hcounts
  have hall : ∀ d ∈ sr.details, d.passed = true := by
    rcases hcounts with hcounts | hcounts
    · exact List.all_eq_true.mp (h.passed_eq_total.mp hcounts.2)
    · exact absurd hpos hcounts.1
  refine ⟨stored, htestResult, ?_, hpassed hall, ?_⟩
  · intro hnil
    have hlength := congrArg List.length htests
    unfold tests at hlength
    rw [List.length_map, List.length_map, hnil, List.length_nil] at hlength
    exact hne (List.length_eq_zero_iff.mp hlength.symm)
  · intro k hk t ht
    obtain rfl := Option.some.inj hk
    rw [htests]
    exact hcovers hall t ht

/-- A failed compilation is not a success. -/
theorem failure_not_success {clock : Clock} {err : GoError} {decodeError : String} {o : Outcome}
    (h : storedRun decodeError
      (.ok (finalizeExecutionFailure (startedResult clock) err clock)) = some o) :
    o.status ≠ .success := by
  intro hstatus
  obtain ⟨hcounts, -⟩ := storedRun_success h hstatus
  rcases hcounts with hcounts | hcounts
  · exact absurd hcounts.1 (lt_irrefl _)
  · obtain ⟨-, hpos | haccepted⟩ := (normalizeCounts_accepted_iff _).mp hcounts.2
    · exact absurd hpos.1 hcounts.1
    · exact absurd haccepted.2 (fallback_not_accepted executionPathCentral (some err) "")

theorem meaningful_of_failure (problem : Problem) (clock : Clock) (err : GoError) :
    MeaningfulRun problem (.ok (finalizeExecutionFailure (startedResult clock) err clock)) :=
  fun _ _ hstored hstatus => absurd hstatus (failure_not_success hstored)

/-! ## The tests of a run -/

theorem test_markRunError (err : GoError) (stderrForLog : String) (tr : TestResult) :
    (markRunError err stderrForLog tr).1.test = tr.test := by
  unfold markRunError
  simp only
  split_ifs <;> rfl

theorem test_judgeReport (problem : Problem) (tc : TestCase)
    (stdout stderr stderrForLog : String) (truncated : Bool) (tr : TestResult) :
    (judgeReport problem tc stdout stderr stderrForLog truncated tr).1.test = tr.test := by
  unfold judgeReport
  cases truncated with
  | true => rfl
  | false =>
    rw [if_neg Bool.false_ne_true]
    obtain ⟨o, userLogs⟩ := parseSingleTestOutput stdout stderr
    cases o with
    | none => rfl
    | some out =>
      simp only
      split_ifs <;> rfl

theorem test_perTestResult (problem : Problem) (i : ℕ) (tc : TestCase) (answer : ExecAnswer) :
    (perTestResult problem i tc answer).1.test = i + 1 := by
  unfold perTestResult
  cases tc.payload.marshal with
  | error e => rfl
  | ok json =>
    simp only
    cases answer.err with
    | some err =>
      simp only
      rw [test_markRunError]
    | none =>
      simp only
      rw [test_judgeReport]

theorem test_stdinResult (i : ℕ) (tc : TestCase) (answer : ExecAnswer) :
    (stdinResult i tc answer).test = i + 1 := by
  unfold stdinResult
  cases stdinTestInput tc with
  | none => rfl
  | some input =>
    cases stdinTestExpected tc with
    | none => rfl
    | some expected =>
      simp only
      cases answer.err with
      | some err => exact test_markRunError _ _ _
      | none =>
        simp only
        split_ifs <;> rfl

theorem tests_addTestResult (sr : SubmissionResult) (tr : TestResult) :
    tests (sr.addTestResult tr) = tests sr ++ [tr.test] := by
  unfold tests
  rw [details_addTestResult, List.map_append, List.map_singleton, TestResult.test_normalize]

/-- The tests `i + 1, …, i + n`. -/
def testsFrom (i n : ℕ) : List ℤ := (List.range' i n).map fun k : ℕ => (k : ℤ) + 1

theorem testsFrom_zero (n : ℕ) : testsFrom 0 n = testNumbers n := (testNumbers_append n.zero_le).symm

theorem perTestLoop_tests (problem : Problem) (clock : Clock) (run : ℕ → ExecAnswer) (i : ℕ)
    (tcs : List TestCase) (result : SubmissionResult) :
    tests (perTestLoop problem clock run i tcs result) = tests result ++ testsFrom i tcs.length := by
  induction tcs generalizing i result with
  | nil => exact (List.append_nil _).symm
  | cons tc tcs ih =>
    unfold perTestLoop
    simp only
    rw [ih, tests_addTestResult, List.append_assoc, test_perTestResult]
    rfl

/-- The loop over the tests of a stdin problem. -/
theorem stdinLoop_spec (clock : Clock) (run : ℕ → ExecAnswer) (i : ℕ) (tcs : List TestCase)
    (result : SubmissionResult) :
    let r := stdinLoop clock run i tcs result
    tests r = tests result ++ testsFrom i tcs.length ∧ (Counted result → Counted r) := by
  induction tcs generalizing i result with
  | nil => exact ⟨(List.append_nil _).symm, id⟩
  | cons tc tcs ih =>
    dsimp only at ih ⊢
    unfold stdinLoop
    obtain ⟨htests, hcounted⟩ := ih (i + 1) (result.addTestResult
      { stdinResult i tc (run i) with timeMs := clock.testMs result.details.length })
    refine ⟨?_, fun h => hcounted (h.addTestResult _)⟩
    rw [htests, tests_addTestResult, List.append_assoc, test_stdinResult]
    rfl

theorem tests_finish (sr : SubmissionResult) (clock : Clock) :
    tests (sr.finish clock).updateStatus = tests sr := by
  rw [tests_eq, (finish_updateStatus sr clock).1, tests_eq]

/-- **A run with a detail for each test.** -/
theorem meaningful_of_tests {problem : Problem} {sr : SubmissionResult} (h : Counted sr)
    (htests : tests sr = testNumbers problem.testCases.length) (hne : problem.testCases ≠ []) :
    MeaningfulRun problem (.ok sr) := by
  refine meaningful_of_counted h ?_ fun _ t ht => htests ▸ ht
  intro hnil
  have hlength := congrArg List.length htests
  unfold tests at hlength
  rw [hnil, length_testNumbers] at hlength
  exact hne (List.length_eq_zero_iff.mp hlength.symm)

theorem perTest_meaningful {problem : Problem} (hne : problem.testCases ≠ []) (clock : Clock)
    (prep : Preparation) (run : ℕ → ExecAnswer) :
    MeaningfulRun problem (runSubmissionCentralPerTest problem clock prep run) := by
  unfold runSubmissionCentralPerTest
  cases prep.prepareFiles with
  | some err => exact fun _ _ h => nomatch h
  | none =>
    cases compileCentralSubmission prep.compile with
    | some err => exact meaningful_of_failure problem clock err
    | none =>
      obtain ⟨-, hcounted, -⟩ :=
        perTestLoop_spec problem clock run 0 problem.testCases (startedResult clock)
      refine meaningful_of_tests ((finish_updateStatus _ clock).2.1
        (hcounted (counted_startedResult clock))) ?_ hne
      rw [tests_finish, perTestLoop_tests, testsFrom_zero]
      rfl

theorem stdin_meaningful {problem : Problem} (hne : problem.testCases ≠ []) (clock : Clock)
    (prep : Preparation) (run : ℕ → ExecAnswer) :
    MeaningfulRun problem (runSubmissionStdin problem clock prep run) := by
  unfold runSubmissionStdin
  cases prep.prepareFiles with
  | some err => exact fun _ _ h => nomatch h
  | none =>
    cases compileCentralSubmission prep.compile with
    | some err => exact meaningful_of_failure problem clock err
    | none =>
      obtain ⟨htests, hcounted⟩ :=
        stdinLoop_spec clock run 0 problem.testCases (startedResult clock)
      refine meaningful_of_tests ((finish_updateStatus _ clock).2.1
        (hcounted (counted_startedResult clock))) ?_ hne
      rw [tests_finish, htests, testsFrom_zero]
      rfl

/-! ## The batched runner -/

/-- If there are as many recorded lines as tests and they all pass, then each test is among
them: no line takes the place of another. -/
def Covering (problem : Problem) (stream : ExecStream) : Prop :=
  problem.testCases.length ≤ (recordedLines problem stream).length →
    (∀ out ∈ recordedLines problem stream, passing problem out = true) →
      ∀ t ∈ testNumbers problem.testCases.length,
        t ∈ (recordedLines problem stream).map fun out => out.test

theorem collectBatched_meaningful {problem : Problem} (hne : problem.testCases ≠ [])
    (clock : Clock) {stream : ExecStream} (h : Covering problem stream) :
    MeaningfulRun problem (.ok (collectBatched problem clock stream (startedResult clock))) := by
  obtain ⟨hrows, hcounted, -⟩ := rows_collectBatched problem clock stream
  have htests := tests_collectBatched problem clock stream
  set result := collectBatched problem clock stream (startedResult clock)
  set outs := recordedLines problem stream with houts
  have hpos : 0 < problem.testCases.length := List.length_pos_of_ne_nil hne
  refine meaningful_of_counted hcounted (details_ne_nil fun hnil => ?_) fun hpassed => ?_
  · rw [hrows] at hnil
    have hlength := congrArg List.length hnil
    rw [List.length_append, List.length_map, List.length_map, List.length_range',
      List.length_nil] at hlength
    omega
  · have hpassedRows : ∀ r ∈ rows result, r.2.1 = true := List.forall_mem_map.mpr hpassed
    rw [hrows] at hpassedRows
    have hall : problem.testCases.length ≤ outs.length := by
      -- otherwise the first missing test is a failed row
      by_contra hlt
      have hmem : missingRow (runReason problem stream).1 outs.length ∈
          (List.range' outs.length (problem.testCases.length - outs.length)).map
            (missingRow (runReason problem stream).1) :=
        List.mem_map_of_mem (List.mem_range'_1.mpr ⟨le_refl _, by omega⟩)
      exact absurd (hpassedRows _ (List.mem_append_right _ hmem)) Bool.false_ne_true
    have hpassing : ∀ out ∈ outs, passing problem out = true := by
      intro out hout
      rw [← lineRow_passed]
      exact hpassedRows _ (List.mem_append_left _ (List.mem_map_of_mem hout))
    intro t ht
    rw [htests]
    exact List.mem_append_left _ (h hall hpassing t ht)

theorem batched_meaningful {problem : Problem} (hne : problem.testCases ≠ []) (clock : Clock)
    (prep : Preparation) {stream : Except GoError ExecStream}
    (h : ∀ s, stream = .ok s → Covering problem s) :
    MeaningfulRun problem (runSubmissionCentralBatched problem clock prep stream) := by
  unfold runSubmissionCentralBatched
  cases prep.prepareFiles with
  | some err => exact fun _ _ h => nomatch h
  | none =>
    cases compileCentralSubmission prep.compile with
    | some err => exact meaningful_of_failure problem clock err
    | none =>
      cases (testsPayload problem).marshal with
      | error err => exact fun _ _ h => nomatch h
      | ok json =>
        simp only
        split_ifs
        · exact fun _ _ h => nomatch h
        · cases stream with
          | error err => exact fun _ _ h => nomatch h
          | ok s => exact collectBatched_meaningful hne clock (h s rfl)

/-- A success in which a recorded line takes the place of another. -/
theorem batched_not_meaningful {problem : Problem} {clock : Clock} {prep : Preparation}
    {s : ExecStream} {decodeError : String} {o : Outcome} (h : ¬Covering problem s)
    (hstored : storedRun decodeError (runSubmissionCentralBatched problem clock prep (.ok s)) =
      some o)
    (hstatus : o.status = .success) : ¬Meaningful (some problem.testCases.length) o := by
  cases hcompile : compileCentralSubmission prep.compile with
  | some err =>
    unfold runSubmissionCentralBatched at hstored
    rw [hcompile] at hstored
    cases hprepare : prep.prepareFiles with
    | some err' =>
      rw [hprepare] at hstored
      cases hstored
    | none =>
      rw [hprepare] at hstored
      exact absurd hstatus (failure_not_success hstored)
  | none =>
    cases hrun : runSubmissionCentralBatched problem clock prep (.ok s) with
    | error err =>
      rw [hrun] at hstored
      cases hstored
    | ok result =>
      rw [hrun, eq_collectBatched hcompile hrun] at hstored
      obtain ⟨-, stored, htestResult, htests, -⟩ := storedRun_success hstored hstatus
      unfold Covering at h
      simp only [not_forall] at h
      obtain ⟨hall, hpassing, t, ht, hmissing⟩ := h
      intro hmeaningful
      obtain ⟨sr, hsr, -, -, hcovers⟩ := hmeaningful hstatus
      obtain rfl := Option.some.inj (htestResult.symm.trans hsr)
      have hmem := hcovers _ rfl t ht
      rw [htests, tests_collectBatched, Nat.sub_eq_zero_of_le hall, List.range'_zero, List.map_nil,
        List.append_nil] at hmem
      exact hmissing hmem

/-! ## Success -/

/-- The result of a run over no tests. -/
def noTests : SubmissionResult := ((startedResult stopped).finish stopped).updateStatus

/-- A run over no tests is stored as a success. -/
theorem noTests_not_meaningful (problem : Problem) : ¬MeaningfulRun problem (.ok noTests) := by
  have hstored : ((storedRun "" (.ok noTests)).any fun o =>
      o.status = .success && o.testResult.all fun sr => sr.details.isEmpty) = true := by
    decide +kernel
  intro h
  obtain ⟨o, ho, hsuccess⟩ := (Option.any_eq_true _ _).mp hstored
  rw [Bool.and_eq_true, decide_eq_true_eq] at hsuccess
  obtain ⟨sr, hsr, hne, -⟩ := h "" o ho hsuccess.1
  have hempty := hsuccess.2
  rw [hsr] at hempty
  exact hne (List.isEmpty_iff.mp hempty)

theorem perTest_noTests {problem : Problem} (h : problem.testCases = []) (run : ℕ → ExecAnswer) :
    runSubmissionCentralPerTest problem stopped ⟨none, none⟩ run = .ok noTests := by
  unfold runSubmissionCentralPerTest
  rw [h]
  rfl

theorem stdin_noTests {problem : Problem} (h : problem.testCases = []) (run : ℕ → ExecAnswer) :
    runSubmissionStdin problem stopped ⟨none, none⟩ run = .ok noTests := by
  unfold runSubmissionStdin
  rw [h]
  rfl

/-- The streams of a wrapper that prints nothing. -/
def silent : ExecStream := ⟨.ok "", "", (0, none)⟩

theorem batched_noTests {problem : Problem} (h : problem.testCases = []) :
    runSubmissionCentralBatched problem stopped ⟨none, none⟩ (.ok silent) = .ok noTests := by
  unfold runSubmissionCentralBatched collectBatched testsPayload
  rw [h]
  rfl

/-- **What Success means.**  For any stdout it means that there are details and all have
passed exactly when the stdout is sound.  For a run of the per-test runner or the stdin
runner it means that each test of the problem has passed exactly when the problem has a
test; for the batched runner it also means so as long as no recorded line takes the place
of another, and otherwise a success does not. -/
theorem success_meaningful (problem : Problem) :
    (∀ executionPath stdout stderr execErr decodeError,
      Meaningful none (outcome executionPath stdout stderr execErr decodeError) ↔ Sound stdout) ∧
    ((∀ clock prep run,
        MeaningfulRun problem (runSubmissionCentralPerTest problem clock prep run)) ↔
      problem.testCases ≠ []) ∧
    ((∀ clock prep run, MeaningfulRun problem (runSubmissionStdin problem clock prep run)) ↔
      problem.testCases ≠ []) ∧
    ((∀ clock prep stream, (∀ s, stream = .ok s → Covering problem s) →
        MeaningfulRun problem (runSubmissionCentralBatched problem clock prep stream)) ↔
      problem.testCases ≠ []) ∧
    ∀ clock prep s decodeError o, ¬Covering problem s →
      storedRun decodeError (runSubmissionCentralBatched problem clock prep (.ok s)) = some o →
      o.status = .success → ¬Meaningful (some problem.testCases.length) o := by
  have hanswer : ExecAnswer := ⟨"", "", none⟩
  refine ⟨printed_meaningful_iff, ⟨?_, ?_⟩, ⟨?_, ?_⟩, ⟨?_, ?_⟩, ?_⟩
  · intro h hnil
    have hrun := h stopped ⟨none, none⟩ fun _ => hanswer
    rw [perTest_noTests hnil] at hrun
    exact noTests_not_meaningful problem hrun
  · exact perTest_meaningful
  · intro h hnil
    have hrun := h stopped ⟨none, none⟩ fun _ => hanswer
    rw [stdin_noTests hnil] at hrun
    exact noTests_not_meaningful problem hrun
  · exact stdin_meaningful
  · intro h hnil
    have hrun := h stopped ⟨none, none⟩ (.ok silent) fun s _ _ _ t ht => by
      rw [hnil] at ht
      cases ht
    rw [batched_noTests hnil] at hrun
    exact noTests_not_meaningful problem hrun
  · exact fun hne clock prep stream h => batched_meaningful hne clock prep h
  · intro clock prep s decodeError o hcovering hstored hstatus
    exact batched_not_meaningful hcovering hstored hstatus

/-- A program that prints its own verdict, without a test. -/
theorem printed_verdict_not_meaningful :
    ¬Meaningful none (outcome executionPathLegacy "\x7b\"status\":\"Accepted\"\x7d" "" none "") := by
  have hstored : ((fun o : Outcome =>
      o.status = .success && o.testResult.all fun sr => sr.details.isEmpty)
        (outcome executionPathLegacy "\x7b\"status\":\"Accepted\"\x7d" "" none "")) = true := by
    decide +kernel
  intro h
  rw [Bool.and_eq_true, decide_eq_true_eq] at hstored
  obtain ⟨sr, hsr, hne, -⟩ := h hstored.1
  have hempty := hstored.2
  rw [hsr] at hempty
  exact hne (List.isEmpty_iff.mp hempty)

end Judge
