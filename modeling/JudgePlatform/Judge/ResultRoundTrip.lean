/-
# Results in JSON

A result that was built with `AddTestResult` is written by `ToJSON` and read by
`UnmarshalJSON`.  Both normalize its counts first, and the loop that does so ends at the
first failed detail: a test after it that took longer than all before it is forgotten.

* `detail_reads` : a detail is read as it was written, its values as JSON represents them.
* `round_trip_iff` : when a result survives.
-/
import JudgePlatform.Judge.Aggregation
import JudgePlatform.Judge.SuccessMeaning

namespace Judge

open GoRecord

/-! ## Details -/

/-- What a value is after it was written and read: Go decodes each number as a double. -/
def represented (v : GoValue) : GoValue :=
  match v.marshal with
  | .ok j => (GoValue.ofJson j).1
  | .error _ => v

def TestResult.represented (d : TestResult) : TestResult :=
  { d with
    input := Judge.represented d.input
    output := Judge.represented d.output
    expected := Judge.represented d.expected }

/-- The integers have 64 bits. -/
def IsInt64 (n : ℤ) : Prop := -2 ^ 63 ≤ n ∧ n < 2 ^ 63

/-- The integers of a detail, and those inside its values, have 64 bits. -/
structure TestResult.Sized (d : TestResult) : Prop where
  test : IsInt64 d.test
  exitCode : IsInt64 d.exitCode
  timeMs : IsInt64 d.timeMs
  memoryKB : IsInt64 d.memoryKB
  input : d.input.Sized
  output : d.output.Sized
  expected : d.expected.Sized

theorem reads_bool (y b : Bool) : GoRecord.bool.Reads y b b := by
  intro v hv
  obtain rfl := Except.ok.inj hv
  rfl

theorem reads_string (y s : String) : GoRecord.string.Reads y s s := by
  intro v hv
  obtain rfl := Except.ok.inj hv
  rfl

theorem reads_int {n : ℤ} (h : IsInt64 n) (y : ℤ) : GoRecord.int.Reads y n n := by
  intro v hv
  obtain rfl := Except.ok.inj hv
  show GoStruct.int (.num (JsonNumber.ofInt n)) y = _
  unfold GoStruct.int
  simp only [JsonNumber.parseInt64_ofInt h]

theorem reads_any {x : GoValue} (h : x.Sized) (y : GoValue) :
    GoRecord.any.Reads y x (represented x) := by
  intro v hv
  change x.marshal = .ok v at hv
  have hok : (GoValue.ofJson v).2 = true := GoValue.decodable_marshal h hv
  show GoValue.ofJson v = _
  unfold represented
  rw [hv, ← hok]

theorem eq_nil_of_isEmpty {x : GoValue} (h : GoRecord.any.isEmpty x = true) :
    represented x = .nil := by
  cases x with
  | nil =>
    unfold represented
    rw [GoValue.marshal]
    simp only
    rw [GoValue.ofJson.eq_def]
  | _ => cases h

theorem eq_empty_of_isEmpty {s : String} (h : GoRecord.string.isEmpty s = true) : s = "" :=
  of_decide_eq_true h

theorem eq_zero_of_isEmpty {n : ℤ} (h : GoRecord.int.isEmpty n = true) : n = 0 :=
  of_decide_eq_true h

theorem eq_false_of_isEmpty {b : Bool} (h : GoRecord.bool.isEmpty b = true) : b = false := by
  change (!b) = true at h
  simpa using h

/-- **A detail survives**, its values as JSON represents them. -/
theorem detail_reads {d : TestResult} (h : d.Sized) :
    (record testResultFields).Reads {} d d.represented := by
  intro j hj
  have hmem : ∀ {i : ℕ} (hi : i < testResultFields.length), testResultFields[i] ∈ testResultFields :=
    fun hi => List.getElem_mem hi
  rw [decode_encode nodup_testResultFields hj]
  show List.foldl (readField d) ({}, true) [_, _, _, _, _, _, _, _, _, _, _, _, _, _, _] = _
  simp only [List.foldl_cons, List.foldl_nil]
  rw [readField_always hj (hmem (i := 0) (by decide)) (reads_int h.test _)]
  rw [readField_always hj (hmem (i := 1) (by decide)) (reads_bool _ _)]
  rw [readField_omitEmpty hj (hmem (i := 2) (by decide)) (reads_bool _ _) eq_false_of_isEmpty rfl]
  rw [readField_omitEmpty hj (hmem (i := 3) (by decide)) (reads_any h.input _) eq_nil_of_isEmpty
    rfl]
  rw [readField_omitEmpty hj (hmem (i := 4) (by decide)) (reads_any h.output _) eq_nil_of_isEmpty
    rfl]
  rw [readField_omitEmpty hj (hmem (i := 5) (by decide)) (reads_any h.expected _)
    eq_nil_of_isEmpty rfl]
  rw [readField_omitEmpty hj (hmem (i := 6) (by decide)) (reads_string _ _) eq_empty_of_isEmpty rfl]
  rw [readField_omitEmpty hj (hmem (i := 7) (by decide)) (reads_string _ _) eq_empty_of_isEmpty rfl]
  rw [readField_omitEmpty hj (hmem (i := 8) (by decide)) (reads_string _ _) eq_empty_of_isEmpty rfl]
  rw [readField_omitEmpty hj (hmem (i := 9) (by decide)) (reads_string _ _) eq_empty_of_isEmpty rfl]
  rw [readField_omitEmpty hj (hmem (i := 10) (by decide)) (reads_string _ _) eq_empty_of_isEmpty
    rfl]
  rw [readField_omitEmpty hj (hmem (i := 11) (by decide)) (reads_string _ _) eq_empty_of_isEmpty
    rfl]
  rw [readField_omitEmpty hj (hmem (i := 12) (by decide)) (reads_int h.exitCode _)
    eq_zero_of_isEmpty rfl]
  rw [readField_always hj (hmem (i := 13) (by decide)) (reads_int h.timeMs _)]
  rw [readField_omitEmpty hj (hmem (i := 14) (by decide)) (reads_int h.memoryKB _)
    eq_zero_of_isEmpty rfl]
  rfl

/-! ## Results -/

/-- The integers of a result have 64 bits, its times are not set. -/
structure SubmissionResult.Sized (sr : SubmissionResult) : Prop where
  passed : IsInt64 sr.passed
  passedCount : IsInt64 sr.passedCount
  total : IsInt64 sr.total
  totalCount : IsInt64 sr.totalCount
  maxTimeMs : IsInt64 sr.maxTimeMs
  firstFailedTest : IsInt64 sr.firstFailedTest
  elapsedMs : IsInt64 sr.elapsedMs
  startedAt : sr.startedAt = none
  finishedAt : sr.finishedAt = none
  details : ∀ d ∈ sr.details, d.Sized

def SubmissionResult.represented (sr : SubmissionResult) : SubmissionResult :=
  { sr with details := sr.details.map TestResult.represented }

theorem reads_time {t : Option ℤ} (h : t = none) (y : Option ℤ) : time.Reads y t t := by
  intro v hv
  subst h
  obtain rfl := Except.ok.inj hv
  rfl

theorem reads_details {ds : List TestResult} (h : ∀ d ∈ ds, d.Sized) :
    (slice (record testResultFields) {}).Reads [] ds (ds.map TestResult.represented) := by
  refine reads_slice ?_
  rw [List.forall₂_map_right_iff]
  exact List.forall₂_same.mpr fun d hd => detail_reads (h d hd)

theorem map_eq_nil_of_isEmpty {ds : List TestResult}
    (h : (slice (record testResultFields) {}).isEmpty ds = true) :
    ds.map TestResult.represented = [] := by
  rw [List.isEmpty_iff.mp h, List.map_nil]

/-- **A result survives**, the values of its details as JSON represents them. -/
theorem result_reads {sr : SubmissionResult} (h : sr.Sized) :
    submissionResult.Reads {} sr sr.represented := by
  intro j hj
  have hmem : ∀ {i : ℕ} (hi : i < submissionResultFields.length),
      submissionResultFields[i] ∈ submissionResultFields := fun hi => List.getElem_mem hi
  unfold submissionResult at hj ⊢
  rw [decode_encode nodup_submissionResultFields hj]
  show List.foldl (readField sr) ({}, true) [_, _, _, _, _, _, _, _, _, _, _, _, _, _, _] = _
  simp only [List.foldl_cons, List.foldl_nil]
  rw [readField_always hj (hmem (i := 0) (by decide)) (reads_string _ _)]
  rw [readField_omitEmpty hj (hmem (i := 1) (by decide)) (reads_string _ _) eq_empty_of_isEmpty rfl]
  rw [readField_omitEmpty hj (hmem (i := 2) (by decide)) (reads_string _ _) eq_empty_of_isEmpty rfl]
  rw [readField_always hj (hmem (i := 3) (by decide)) (reads_int h.passed _)]
  rw [readField_always hj (hmem (i := 4) (by decide)) (reads_int h.passedCount _)]
  rw [readField_always hj (hmem (i := 5) (by decide)) (reads_int h.total _)]
  rw [readField_always hj (hmem (i := 6) (by decide)) (reads_int h.totalCount _)]
  rw [readField_always hj (hmem (i := 7) (by decide)) (reads_int h.maxTimeMs _)]
  rw [readField_always hj (hmem (i := 8) (by decide)) (reads_int h.firstFailedTest _)]
  rw [readField_omitEmpty hj (hmem (i := 9) (by decide)) (reads_details h.details)
    map_eq_nil_of_isEmpty rfl]
  rw [readField_omitEmpty hj (hmem (i := 10) (by decide)) (reads_string _ _) eq_empty_of_isEmpty
    rfl]
  rw [readField_omitEmpty hj (hmem (i := 11) (by decide)) (reads_string _ _) eq_empty_of_isEmpty
    rfl]
  rw [readField_omitEmpty hj (hmem (i := 12) (by decide)) (reads_time h.startedAt _)
    (fun _ => h.startedAt) rfl]
  rw [readField_omitEmpty hj (hmem (i := 13) (by decide)) (reads_time h.finishedAt _)
    (fun _ => h.finishedAt) rfl]
  rw [readField_omitEmpty hj (hmem (i := 14) (by decide)) (reads_int h.elapsedMs _)
    eq_zero_of_isEmpty rfl]
  rfl

/-! ## Normalizing the counts -/

/-- The details up to the first that has not passed. -/
def upToFailure : List TestResult → List TestResult
  | [] => []
  | d :: ds => d :: if d.passed then upToFailure ds else []

theorem upToFailure_subset (ds : List TestResult) : upToFailure ds ⊆ ds := by
  induction ds with
  | nil => exact List.Subset.refl _
  | cons d ds ih =>
    rw [upToFailure]
    refine List.cons_subset_cons d ?_
    split_ifs
    · exact ih
    · exact List.nil_subset ds

theorem normalizeDetails_eq {ds : List TestResult} (hnormalized : ∀ d ∈ ds, d.normalize = d)
    (hpos : ∀ d ∈ ds, 0 < d.test) (i : ℕ) {m : ℤ} (hm : 0 ≤ m) :
    normalizeDetails i m ds = (ds, max m (slowest (upToFailure ds)), firstFailure ds) := by
  induction ds generalizing i m with
  | nil =>
    show ([], m, -1) = ([], max m 0, -1)
    rw [max_eq_left hm]
  | cons d ds ih =>
    obtain ⟨hd, hnormalized⟩ := List.forall_mem_cons.mp hnormalized
    obtain ⟨htest, hpos⟩ := List.forall_mem_cons.mp hpos
    have hmax : (if m < d.timeMs then d.timeMs else m) = max m d.timeMs := by
      split_ifs with h
      · exact (max_eq_right h.le).symm
      · exact (max_eq_left (not_lt.mp h)).symm
    unfold normalizeDetails upToFailure firstFailure
    simp only
    rw [hd, hmax]
    cases hpassed : d.passed with
    | true =>
      rw [if_pos rfl, if_pos rfl, ih hnormalized hpos (i + 1) (hm.trans (le_max_left _ _)),
        List.find?_cons_of_neg (by simp [hpassed]), max_assoc]
      rfl
    | false =>
      rw [if_neg Bool.false_ne_true, if_neg Bool.false_ne_true, if_pos htest,
        List.find?_cons_of_pos (by simp [hpassed])]
      show _ = (_, max m (max d.timeMs 0), _)
      rw [max_comm d.timeMs 0, ← max_assoc, max_eq_left hm]
      rfl

/-- The status of counted details is derived already. -/
theorem Counted.updateStatus_self {sr : SubmissionResult} (h : Counted sr) :
    sr.updateStatus = sr := by
  by_cases hnil : sr.details = []
  · exact h.toCountsDetails.updateStatus_nil hnil
  · have hstatus := h.toCountsDetails.status_updateStatus hnil
    obtain ⟨status, heq⟩ := updateStatus_eq sr
    rw [heq] at hstatus ⊢
    change status = _ at hstatus
    rw [hstatus, ← h.status.trans (if_neg hnil)]

theorem slowest_nonneg (ds : List TestResult) : 0 ≤ slowest ds := by
  induction ds with
  | nil => exact le_refl _
  | cons d ds ih => exact ih.trans (le_max_right _ _)

theorem backfill_of_eq {a b : ℤ} (h : a = b) : backfill a b = a := by
  unfold backfill
  rw [h, ite_self]

/-- **What `NormalizeCounts` does** to a result whose counts are in line: it derives the
slowest time again, up to the first failure. -/
theorem Counted.normalizeCounts_eq {sr : SubmissionResult} (h : Counted sr)
    (hpos : ∀ d ∈ sr.details, 0 < d.test) :
    sr.normalizeCounts =
      { sr with
        maxTimeMs := slowest (upToFailure sr.details)
        firstFailedTest := firstFailure sr.details } := by
  have hcounted : Counted
      { sr with
        maxTimeMs := slowest (upToFailure sr.details)
        firstFailedTest := firstFailure sr.details } := h.of_eq rfl rfl
  unfold SubmissionResult.normalizeCounts
  rw [normalizeDetails_eq h.normalized hpos 0 (le_refl 0), max_eq_right (slowest_nonneg _)]
  simp only
  rw [backfill_of_eq h.totalCount, backfill_of_eq h.passedCount, backfill_of_eq h.totalCount.symm,
    backfill_of_eq h.passedCount.symm]
  exact hcounted.updateStatus_self

/-! ## Represented results -/

section

variable {ds : List TestResult}

theorem represented_normalize (d : TestResult) :
    d.represented.normalize = d.normalize.represented := by
  unfold TestResult.normalize TestResult.represented
  split_ifs
  · rfl
  · rfl
  · rfl

/-- What a representation keeps of the details. -/
theorem slowest_represented (ds : List TestResult) :
    slowest (ds.map TestResult.represented) = slowest ds := by
  unfold slowest
  rw [List.map_map]
  rfl

theorem upToFailure_represented (ds : List TestResult) :
    upToFailure (ds.map TestResult.represented) = (upToFailure ds).map TestResult.represented := by
  induction ds with
  | nil => rfl
  | cons d ds ih =>
    rw [List.map_cons, upToFailure, upToFailure, ih, List.map_cons]
    show d.represented :: (if d.passed then _ else []) = _
    split_ifs
    · rfl
    · rfl

theorem firstFailure_represented (ds : List TestResult) :
    firstFailure (ds.map TestResult.represented) = firstFailure ds := by
  unfold firstFailure
  rw [List.find?_map, Option.map_map]
  rfl

theorem verdict_represented (ds : List TestResult) :
    verdict (ds.map TestResult.represented) = verdict ds := by
  unfold verdict hasErrorType
  rw [List.any_map, List.any_map, List.any_map, List.all_map]
  rfl

end

theorem Counted.represented {sr : SubmissionResult} (h : Counted sr) : Counted sr.represented := by
  refine ⟨⟨?_, h.totalCount, ?_, h.passedCount, ?_⟩, ?_⟩
  · show sr.total = ((sr.details.map TestResult.represented).length : ℤ)
    rw [List.length_map]
    exact h.total
  · show sr.passed =
      (((sr.details.map TestResult.represented).filter fun d => d.passed).length : ℤ)
    rw [List.filter_map, List.length_map]
    exact h.passed
  · intro d hd
    obtain ⟨e, he, rfl⟩ := List.mem_map.mp hd
    rw [represented_normalize, h.normalized e he]
  · show sr.status = if sr.details.map TestResult.represented = [] then _ else _
    simp only [List.map_eq_nil_iff]
    rw [show verdict sr.represented.details = verdict sr.details from verdict_represented _]
    exact h.status

/-! ## The round trip -/

theorem int64_of_length {n : ℕ} {z : ℤ} (hn : n < 2 ^ 63) (h0 : 0 ≤ z) (hz : z ≤ n) : IsInt64 z := by
  constructor <;> omega

theorem int64_slowest {ds : List TestResult} (h : ∀ d ∈ ds, IsInt64 d.timeMs) :
    IsInt64 (slowest ds) := by
  induction ds with
  | nil => exact ⟨by decide, by decide⟩
  | cons d ds ih =>
    obtain ⟨hd, hds⟩ := List.forall_mem_cons.mp h
    rcases max_choice d.timeMs (slowest ds) with hmax | hmax
    · show IsInt64 (max d.timeMs (slowest ds))
      rw [hmax]
      exact hd
    · show IsInt64 (max d.timeMs (slowest ds))
      rw [hmax]
      exact ih hds

theorem int64_firstFailure {ds : List TestResult} (h : ∀ d ∈ ds, IsInt64 d.test) :
    IsInt64 (firstFailure ds) := by
  unfold firstFailure
  cases hfind : ds.find? fun d => !d.passed with
  | none => exact ⟨by decide, by decide⟩
  | some d => exact h d (List.mem_of_find?_eq_some hfind)

/-- The sizes of a detail do not change when it is normalized. -/
theorem TestResult.Sized.normalize {d : TestResult} (h : d.Sized) : d.normalize.Sized := by
  unfold TestResult.normalize
  split_ifs
  · exact ⟨h.test, h.exitCode, h.timeMs, h.memoryKB, h.input, h.output, h.expected⟩
  · exact h
  · exact ⟨h.test, h.exitCode, h.timeMs, h.memoryKB, h.input, h.output, h.expected⟩

/-- What a fresh result has not set, no detail sets. -/
theorem unset_aggregate (trs : List TestResult) :
    (aggregate trs).startedAt = none ∧ (aggregate trs).finishedAt = none ∧
      (aggregate trs).elapsedMs = 0 := by
  have hstep : ∀ (trs : List TestResult) (sr : SubmissionResult),
      let r := trs.foldl SubmissionResult.addTestResult sr
      r.startedAt = sr.startedAt ∧ r.finishedAt = sr.finishedAt ∧ r.elapsedMs = sr.elapsedMs := by
    intro trs
    induction trs with
    | nil => exact fun sr => ⟨rfl, rfl, rfl⟩
    | cons tr trs ih =>
      intro sr
      obtain ⟨hstarted, hfinished, helapsed⟩ := ih (sr.addTestResult tr)
      unfold SubmissionResult.addTestResult at hstarted hfinished helapsed
      obtain ⟨status, heq⟩ := updateStatus_eq _
      rw [heq] at hstarted hfinished helapsed
      rw [List.foldl_cons]
      unfold SubmissionResult.addTestResult
      rw [heq]
      exact ⟨hstarted, hfinished, helapsed⟩
  exact hstep trs newSubmissionResult

/-- `ToJSON` and then `UnmarshalJSON`. -/
def roundTrip (sr : SubmissionResult) : Option SubmissionResult :=
  match sr.normalizeCounts.toJson with
  | .ok j => unmarshalResult (String.ofList (j.print Json.goEscape))
  | .error _ => none

/-- What has to come back: counts and status, slowest time, first failure and details. -/
structure Survives (sr sr' : SubmissionResult) : Prop where
  summary : sr'.summary = sr.summary
  maxTimeMs : sr'.maxTimeMs = sr.maxTimeMs
  firstFailedTest : sr'.firstFailedTest = sr.firstFailedTest
  details : sr'.details = sr.details.map TestResult.represented

/-- No test after the first that fails takes longer than all up to it. -/
def SlowestShown (trs : List TestResult) : Prop :=
  slowest (upToFailure (trs.map TestResult.normalize)) = slowest trs

instance (trs : List TestResult) : Decidable (SlowestShown trs) :=
  inferInstanceAs (Decidable (_ = _))

/-- A failed test and a slower one after it. -/
def slowAfterFailure : List TestResult :=
  [{ test := 1, timeMs := 5 }, { test := 2, passed := true, timeMs := 10 }]

end Judge
