/-
# Whose details a run returns

A run of a stored problem without custom tests goes through both services: the judge
executes the samples and numbers its details anew, and the problems service strips each
detail or shows it by looking its number up among all test cases.

* `RunAnswer` : an answer of the judge about a stored problem.
* `LabelledRight` : each returned detail is stripped or shown as the test case that was
  executed under its number demands.
* `labelledRight_iff` : when it is.
-/
import JudgePlatform.Api.HiddenTests
import JudgePlatform.Api.RunProblem
import JudgePlatform.Judge.RunHandler

namespace Api

open JsValue

/-! ## One document, two services -/

/-- A test case as the judge decodes it; `bson` is the part of the driver that is about
values whose type is only known at run time. -/
def judgeTestCase (bson : JsValue → GoValue) (tc : TestCase) : Judge.TestCase where
  input :=
    match tc.inputs with
    | arr xs => some (xs.map bson)
    | _ => none
  expected := bson tc.expected
  isSample := tc.isSample.getD false
  isHidden := tc.isHidden.getD false

/-- A stored problem as each of the services decodes it.  Raw tests do not stand in for
test cases: what creates a problem asks for one at least. -/
structure StoredProblem (bson : JsValue → GoValue) where
  api : Problem
  judge : Judge.Problem
  tests : judge.testCases = api.testCases.map (judgeTestCase bson)
  noRaw : judge.testCases ≠ [] ∨ judge.testsJSON = ""

/-- The test cases that a run executes, in the order of their numbers. -/
def executedTests (testCases : List TestCase) : List TestCase :=
  let samples := testCases.filter fun tc => tc.isSample.getD false
  if samples.isEmpty then testCases else samples

theorem selectTests_map (bson : JsValue → GoValue) (testCases : List TestCase) :
    Judge.selectTests (testCases.map (judgeTestCase bson)) =
      (executedTests testCases).map (judgeTestCase bson) := by
  unfold Judge.selectTests executedTests
  have hfilter : (testCases.map (judgeTestCase bson)).filter (fun tc => tc.isSample) =
      (testCases.filter fun tc => tc.isSample.getD false).map (judgeTestCase bson) := by
    rw [List.filter_map]
    rfl
  simp only [hfilter, List.isEmpty_map]
  split_ifs
  · rfl
  · rfl

section Answers

variable {outside : ℚ → ℤ} {decodeError : String → String} {bson : JsValue → GoValue}

variable (outside decodeError) in
/-- An answer of the judge to a run of a stored problem: its result, which can be encoded. -/
structure RunAnswer (s : StoredProblem bson) where
  surroundings : Judge.Surroundings
  result : Judge.SubmissionResult
  json : Json
  ran : Judge.runHandler outside decodeError surroundings s.judge = .ok result
  encoded : result.toJson = .ok json

variable {s : StoredProblem bson}

/-- What `json.NewEncoder(w).Encode` writes. -/
def RunAnswer.text (a : RunAnswer outside decodeError s) : String :=
  String.ofList (Json.print Json.goEscape a.json ++ ['\n'])

/-- The detail that a student is meant to get about a test case. -/
def labelled (tc : TestCase) (detail : Members) : JsValue :=
  obj (if isSampleTestCase tc then shownDetail detail else hiddenDetail false detail)

/-- **The details are labelled by the tests that ran**: each detail that the student gets is
stripped or shown according to the test case that the judge has executed under its number. -/
def LabelledRight (a : RunAnswer outside decodeError s) (payload : RunPayload) : Prop :=
  ∀ ms raw, detailsOf (JsValue.parse a.text) = some (ms, raw) →
    ∃ returned, runResponse s.api payload (.answered a.text) = .ok (withDetails ms returned) ∧
      ∀ (i : ℕ) (d : Judge.TestResult) (detail : JsValue) (tc : TestCase),
        a.result.details[i]? = some d → raw[i]? = some detail →
        (executedTests s.api.testCases)[(d.test - 1).toNat]? = some tc →
        returned[i]? = some (labelled tc (spread detail))

/-! ## The details of an answer -/

/-- A detail of the judge as the problems service reads it: an object with the number of its
test, and without the mark of a stripped detail. -/
def ReadOf (d : Judge.TestResult) (v : JsValue) : Prop :=
  ∃ ms, v = obj ms ∧ lookup ms "test" = some (num (ofNumber (JsonNumber.ofInt d.test))) ∧
    lookup ms "isHidden" = none

theorem readOf_ofJson {d : Judge.TestResult} {j : Json}
    (hj : (GoRecord.record Judge.testResultFields).encode GoRecord.jsonEncoding d = .ok j) :
    ReadOf d (ofJson j) := by
  obtain ⟨js, rfl, hnodup, hmember, hother⟩ :=
    GoRecord.exists_members Judge.nodup_testResultFields hj
  refine ⟨ofMembers js [], rfl, ?_, ?_⟩
  · have htest := hmember _ (List.getElem_mem (n := 0) (by decide))
    obtain ⟨v, hv, hok⟩ := Option.map_eq_some_iff.mp htest.symm
    obtain rfl := Except.ok.inj hok
    rw [lookup_ofMembers_nil hnodup]
    exact congrArg (Option.map ofJson) hv
  · rw [lookup_ofMembers_nil hnodup, hother "isHidden" (by decide), Option.map_none]

/-- The details of a result that was written in JSON, as they are read. -/
theorem exists_details_ofJson {sr : Judge.SubmissionResult} {j : Json} (hj : sr.toJson = .ok j) :
    ∃ ms ds, ofJson j = obj ms ∧
      lookup ms "details" = (if ds = [] then none else some (arr (ds.map ofJson))) ∧
      List.Forall₂ (fun d j =>
        (GoRecord.record Judge.testResultFields).encode GoRecord.jsonEncoding d = .ok j)
        sr.details ds := by
  obtain ⟨js, rfl, hnodup, hmember, -⟩ :=
    GoRecord.exists_members Judge.nodup_submissionResultFields hj
  have hdetails : (if sr.details.isEmpty then none else
      some ((GoValue.collect (sr.details.map
        ((GoRecord.record Judge.testResultFields).encode GoRecord.jsonEncoding))).map Json.arr)) =
      (lookup js "details").map .ok :=
    hmember _ (List.getElem_mem (n := 9) (by decide))
  have hread := lookup_ofMembers_nil hnodup "details"
  by_cases hnil : sr.details = []
  · rw [if_pos (List.isEmpty_iff.mpr hnil)] at hdetails
    refine ⟨ofMembers js [], [], rfl, ?_, ?_⟩
    · rw [hread, Option.map_eq_none_iff.mp hdetails.symm, if_pos rfl, Option.map_none]
    · rw [hnil]
      exact List.Forall₂.nil
  · rw [if_neg fun h => hnil (List.isEmpty_iff.mp h)] at hdetails
    obtain ⟨v, hv, hok⟩ := Option.map_eq_some_iff.mp hdetails.symm
    cases hcollect : GoValue.collect (sr.details.map
        ((GoRecord.record Judge.testResultFields).encode GoRecord.jsonEncoding)) with
    | error e =>
      rw [hcollect] at hok
      cases hok
    | ok ds =>
      rw [hcollect] at hok
      obtain rfl := Except.ok.inj hok
      have hforall : List.Forall₂ (· = ·) (sr.details.map
          ((GoRecord.record Judge.testResultFields).encode GoRecord.jsonEncoding))
          (ds.map Except.ok) := by
        rw [List.forall₂_eq_eq_eq]
        exact GoValue.eq_of_collect hcollect
      rw [List.forall₂_map_left_iff, List.forall₂_map_right_iff] at hforall
      have hne : ds ≠ [] := by
        rintro rfl
        exact hnil (List.forall₂_nil_right_iff.mp hforall)
      refine ⟨ofMembers js [], ds, rfl, ?_, hforall⟩
      rw [hread, hv, if_neg hne, Option.map_some, ofJson, ofElements_eq]

/-- The problems service reads the details of the result, one by one, if there are any. -/
theorem RunAnswer.details_parse (a : RunAnswer outside decodeError s) :
    if a.result.details = [] then detailsOf (JsValue.parse a.text) = none
    else ∃ ms raw, detailsOf (JsValue.parse a.text) = some (ms, raw) ∧
      List.Forall₂ ReadOf a.result.details raw := by
  obtain ⟨ms, ds, hms, hlookup, hall⟩ := exists_details_ofJson a.encoded
  have hparse : JsValue.parse a.text = some (obj ms) := by
    have hws : ∀ c ∈ ['\n'], Json.isWs c = true := by simp [Json.isWs]
    unfold JsValue.parse RunAnswer.text
    rw [Json.parse_print_append Json.goEscape a.json hws, Option.map_some, hms]
  have hnil : ds = [] ↔ a.result.details = [] := by
    rw [← List.length_eq_zero_iff, ← hall.length_eq, List.length_eq_zero_iff]
  rw [hparse]
  simp only [detailsOf, hlookup, hnil]
  split_ifs
  · rfl
  · refine ⟨ms, ds.map ofJson, rfl, ?_⟩
    rw [List.forall₂_map_right_iff]
    exact hall.imp fun d j hd => readOf_ofJson hd

/-! ## The label of a detail -/

/-- A detail with a number is looked up under it. -/
theorem isHidden_of_test {ms : Members} {t : ℤ} (hpos : 0 < t) (hlt : t < 2 ^ 53)
    (htest : lookup ms "test" = some (num (ofNumber (JsonNumber.ofInt t))))
    (testCases : List TestCase) (idx : ℕ) :
    isHidden testCases ms idx =
      (testCases[(t - 1).toNat]?).any fun tc => !isSampleTestCase tc := by
  have hint : integerOf (ofNumber (JsonNumber.ofInt t)) = some t :=
    integerOf_ofInt (abs_lt.mpr ⟨by omega, hlt⟩)
  have hindex : testIndex ms idx = t - 1 := by
    simp only [testIndex, firstOf, htest, orElse, hint]
  unfold isHidden testCaseAt
  rw [hindex, if_pos (by omega)]

/-- A stripped detail carries its own mark, which the judge never sets. -/
theorem hiddenDetail_ne_shownDetail {ms : Members} (h : lookup ms "isHidden" = none) :
    hiddenDetail false ms ≠ shownDetail ms := by
  have hhidden : lookup (hiddenDetail false ms) "isHidden" = some (bool true) := by
    show lookup (setMembers (setMember _ "isHidden" (some (bool true)))
      (("timeMs", firstOf ms ["timeMs", "TimeMs"]) :: consoleOf ms)) "isHidden" = _
    rw [lookup_setMembers _ _ (by simp [consoleOf]), lookup_setMember, if_pos rfl]
  have hshown : lookup (shownDetail ms) "isHidden" = none := by
    unfold shownDetail
    rw [lookup_setMembers _ _ (by simp), h]
  intro heq
  rw [heq, hshown] at hhidden
  cases hhidden

/-- Each test has its place in the full list. -/
theorem length_executedTests_le (testCases : List TestCase) :
    (executedTests testCases).length ≤ testCases.length := by
  unfold executedTests
  simp only
  split_ifs
  · exact le_refl _
  · exact List.length_filter_le _ _

/-- **The two lists agree about a place** exactly when nothing is marked as a sample, or a
sample stands there in the full list. -/
theorem sample_agrees_iff {testCases : List TestCase} {i : ℕ} {tc tc' : TestCase}
    (htc : testCases[i]? = some tc) (htc' : (executedTests testCases)[i]? = some tc') :
    isSampleTestCase tc = isSampleTestCase tc' ↔
      (∀ tc ∈ testCases, tc.isSample ≠ some true) ∨ isSampleTestCase tc = true := by
  have hmarked : ∀ tc : TestCase, tc.isSample.getD false = true ↔ tc.isSample = some true := by
    intro tc
    cases tc.isSample with
    | none => simp
    | some b => simp
  unfold executedTests at htc'
  simp only at htc'
  split_ifs at htc' with hnone
  · rw [htc] at htc'
    obtain rfl := Option.some.inj htc'
    rw [List.isEmpty_iff, List.filter_eq_nil_iff] at hnone
    exact iff_of_true rfl (Or.inl fun tc hmem => (hmarked tc).not.mp (hnone tc hmem))
  · have hsample : tc'.isSample = some true := by
      obtain ⟨-, h⟩ := List.mem_filter.mp (List.mem_of_getElem? htc')
      exact (hmarked tc').mp h
    have hmem : tc' ∈ testCases := (List.mem_filter.mp (List.mem_of_getElem? htc')).1
    have htrue : isSampleTestCase tc' = true := by
      unfold isSampleTestCase
      rw [hsample]
    rw [htrue]
    exact ⟨Or.inr, fun h => h.resolve_left fun hnot => hnot tc' hmem hsample⟩

theorem forall₂_getElem {α β : Type} {R : α → β → Prop} {xs : List α} {ys : List β}
    (h : List.Forall₂ R xs ys) {i : ℕ} {x : α} {y : β} (hx : xs[i]? = some x)
    (hy : ys[i]? = some y) : R x y := by
  obtain ⟨hi, rfl⟩ := List.getElem?_eq_some_iff.mp hx
  obtain ⟨hi', rfl⟩ := List.getElem?_eq_some_iff.mp hy
  exact h.get hi hi'

theorem ReadOf.sanitizeDetail {d : Judge.TestResult} {v : JsValue} (h : ReadOf d v)
    {testCases : List TestCase} {tc : TestCase} (hpos : 0 < d.test) (hlt : d.test < 2 ^ 53)
    (htc : testCases[(d.test - 1).toNat]? = some tc) (idx : ℕ) :
    sanitizeDetail testCases false idx v = some (labelled tc (spread v)) := by
  obtain ⟨ms, rfl, htest, -⟩ := h
  show some (obj (if isHidden testCases ms idx then hiddenDetail false ms else shownDetail ms)) =
    some (labelled tc ms)
  rw [isHidden_of_test hpos hlt htest, htc, Option.any_some]
  unfold labelled
  cases isSampleTestCase tc with
  | true => rfl
  | false => rfl

theorem ReadOf.labelled_eq_iff {d : Judge.TestResult} {v : JsValue} (h : ReadOf d v)
    (tc tc' : TestCase) :
    labelled tc (spread v) = labelled tc' (spread v) ↔ isSampleTestCase tc = isSampleTestCase tc' := by
  obtain ⟨ms, rfl, -, hmark⟩ := h
  have hne := hiddenDetail_ne_shownDetail hmark
  unfold labelled
  constructor
  · intro heq
    have hobj : (if isSampleTestCase tc then shownDetail ms else hiddenDetail false ms) =
        if isSampleTestCase tc' then shownDetail ms else hiddenDetail false ms := obj.inj heq
    cases htc : isSampleTestCase tc with
    | true =>
      cases htc' : isSampleTestCase tc' with
      | true => rfl
      | false =>
        rw [htc, htc'] at hobj
        exact absurd hobj.symm hne
    | false =>
      cases htc' : isSampleTestCase tc' with
      | true =>
        rw [htc, htc'] at hobj
        exact absurd hobj hne
      | false => rfl
  · intro heq
    rw [heq]

/-- What a student gets of an answer with details. -/
theorem RunAnswer.response (a : RunAnswer outside decodeError s) {payload : RunPayload}
    (hcustom : payload.customTests.getD [] = []) {ms : Members} {raw : List JsValue}
    (hdetails : detailsOf (JsValue.parse a.text) = some (ms, raw))
    (hread : List.Forall₂ ReadOf a.result.details raw) :
    ∃ returned, runResponse s.api payload (.answered a.text) = .ok (withDetails ms returned) ∧
      ∀ i, returned[i]? = raw[i]?.bind (sanitizeDetail s.api.testCases false i) := by
  have hnull : null ∉ raw := by
    intro hmem
    obtain ⟨i, hi⟩ := List.mem_iff_getElem?.mp hmem
    have hlt : i < a.result.details.length := by
      rw [hread.length_eq]
      exact (List.getElem?_eq_some_iff.mp hi).1
    obtain ⟨ms, hobj, -⟩ := forall₂_getElem hread (List.getElem?_eq_getElem hlt) hi
    cases hobj
  obtain ⟨returned, hreturned⟩ : ∃ returned,
      sanitizeResultDetails raw s.api.testCases false = some returned :=
    exists_sanitizeFrom _ _ _ hnull
  refine ⟨returned, ?_, fun i => ?_⟩
  · cases hparse : JsValue.parse a.text with
    | none =>
      rw [hparse] at hdetails
      cases hdetails
    | some judgeResult =>
      rw [hparse] at hdetails
      unfold runResponse
      simp only [hparse, hdetails, runDetails, if_pos hcustom, hreturned]
  · rw [getElem_sanitizeFrom hreturned, zero_add]

theorem withDetails_injective (ms : Members) {ds ds' : List JsValue}
    (h : withDetails ms ds = withDetails ms ds') : ds = ds' := by
  have heq := congrArg (fun v => detailsOf (some v)) h
  simp only [detailsOf_withDetails] at heq
  exact (Prod.mk.inj (Option.some.inj heq)).2

/-- **The labels are right if and only if** no test case is marked as a sample, or at the
place of each number in the answer there is a sample in the full list. -/
theorem labelledRight_iff (hsize : s.api.testCases.length < 2 ^ 53)
    (a : RunAnswer outside decodeError s) {payload : RunPayload}
    (hcustom : payload.customTests.getD [] = []) :
    LabelledRight a payload ↔
      (∀ tc ∈ s.api.testCases, tc.isSample ≠ some true) ∨
        ∀ t ∈ Judge.tests a.result, ∃ tc,
          s.api.testCases[(t - 1).toNat]? = some tc ∧ isSampleTestCase tc = true := by
  have hplaces : ∀ d ∈ a.result.details, 0 < d.test ∧ d.test < 2 ^ 53 ∧ ∃ tc tc',
      s.api.testCases[(d.test - 1).toNat]? = some tc ∧
        (executedTests s.api.testCases)[(d.test - 1).toNat]? = some tc' := by
    intro d hd
    have hmem : d.test ∈ Judge.tests a.result := List.mem_map_of_mem hd
    obtain ⟨hpos, hle⟩ := Judge.tests_runHandler s.noRaw a.ran d.test hmem
    rw [s.tests, selectTests_map, List.length_map] at hle
    have hlength := length_executedTests_le s.api.testCases
    refine ⟨hpos, by omega, _, _, List.getElem?_eq_getElem (by omega),
      List.getElem?_eq_getElem (by omega)⟩
  have hparse := a.details_parse
  split_ifs at hparse with hnil
  · -- an answer without details, after a compilation that has failed
    refine iff_of_true ?_ (Or.inr ?_)
    · intro ms raw hdetails
      rw [hparse] at hdetails
      cases hdetails
    · unfold Judge.tests
      rw [hnil]
      exact fun _ h => nomatch h
  · obtain ⟨ms, raw, hdetails, hread⟩ := hparse
    obtain ⟨returned, hresponse, hreturned⟩ := a.response hcustom hdetails hread
    -- each returned detail is labelled by the test case at its number in the full list
    have hlabel : ∀ {i : ℕ} {d : Judge.TestResult} {v : JsValue} {tc : TestCase},
        a.result.details[i]? = some d → raw[i]? = some v →
        s.api.testCases[(d.test - 1).toNat]? = some tc →
        returned[i]? = some (labelled tc (spread v)) := by
      intro i d v tc hd hv htc
      obtain ⟨hpos, hlt, -⟩ := hplaces d (List.mem_of_getElem? hd)
      rw [hreturned i, hv]
      exact (forall₂_getElem hread hd hv).sanitizeDetail hpos hlt htc i
    constructor
    · intro hright
      by_cases hnone : ∀ tc ∈ s.api.testCases, tc.isSample ≠ some true
      · exact Or.inl hnone
      · right
        intro t ht
        obtain ⟨d, hd, rfl⟩ := List.mem_map.mp ht
        obtain ⟨i, hi⟩ := List.mem_iff_getElem?.mp hd
        obtain ⟨-, -, tc, tc', htc, htc'⟩ := hplaces d hd
        have hlt : i < raw.length := by
          rw [← hread.length_eq]
          exact (List.getElem?_eq_some_iff.mp hi).1
        have hv := List.getElem?_eq_getElem hlt
        obtain ⟨returned', hresponse', hall⟩ := hright ms raw hdetails
        have hsame : returned' = returned :=
          withDetails_injective ms (Except.ok.inj (hresponse'.symm.trans hresponse))
        -- one detail cannot be shown and stripped at once
        have hboth := (hlabel hi hv htc).symm.trans (hsame ▸ hall i d _ tc' hi hv htc')
        have hagree : isSampleTestCase tc = isSampleTestCase tc' :=
          ((forall₂_getElem hread hi hv).labelled_eq_iff tc tc').mp (Option.some.inj hboth)
        exact ⟨tc, htc, ((sample_agrees_iff htc htc').mp hagree).resolve_left hnone⟩
    · intro hcond ms' raw' hdetails'
      obtain ⟨rfl, rfl⟩ := Prod.mk.inj (Option.some.inj (hdetails.symm.trans hdetails'))
      refine ⟨returned, hresponse, ?_⟩
      intro i d v tc' hd hv htc'
      obtain ⟨-, -, tc, -, htc, -⟩ := hplaces d (List.mem_of_getElem? hd)
      -- the lookup may name another test case than the one that ran, of the same kind
      have hagree : isSampleTestCase tc = isSampleTestCase tc' := by
        refine (sample_agrees_iff htc htc').mpr (hcond.imp_right fun hall => ?_)
        obtain ⟨tc₀, htc₀, hsample⟩ :=
          hall d.test (List.mem_map_of_mem (List.mem_of_getElem? hd))
        obtain rfl := Option.some.inj (htc.symm.trans htc₀)
        exact hsample
      rw [hlabel hd hv htc, ((forall₂_getElem hread hd hv).labelled_eq_iff tc tc').mpr hagree]

variable (outside decodeError) in
/-- The answer of a run, if there is a result that can be encoded. -/
def RunAnswer.of (s : StoredProblem bson) (surroundings : Judge.Surroundings) :
    Option (RunAnswer outside decodeError s) :=
  match hran : Judge.runHandler outside decodeError surroundings s.judge with
  | .error _ => none
  | .ok result =>
    match hencoded : result.toJson with
    | .error _ => none
    | .ok json => some ⟨surroundings, result, json, hran, hencoded⟩

end Answers

/-! ## A sample after a hidden test case -/

/-- The driver on texts. -/
def bsonText : JsValue → GoValue
  | str text => .string text
  | _ => .nil

/-- A stdin problem with these test cases: a program that prints its input. -/
def echo (testCases : List TestCase) (h : testCases ≠ []) : StoredProblem bsonText where
  api :=
    { id := "echo"
      title := "Echo"
      problemType := some "stdin"
      functionName := none
      compareConfig := none
      testCases := testCases
      isPremium := false }
  judge :=
    { title := "Echo"
      description := "Print the input."
      problemType := "stdin"
      testCases := testCases.map (judgeTestCase bsonText) }
  tests := rfl
  noRaw := Or.inl (by simpa using h)

def sampleCase : TestCase := ⟨arr [str "one"], str "one", some true, some false⟩
def hiddenCase : TestCase := ⟨arr [str "two"], str "two", some false, some true⟩

/-- A run in which each exec prints `one`. -/
def printsOne : Judge.Surroundings where
  refusal := none
  clock := ⟨0, 0, fun _ => 0⟩
  prep := ⟨none, none⟩
  run := fun _ => ⟨"one", "", none⟩
  batch := none

/-- The answer to a run of the problem with these test cases. -/
def answerOne (testCases : List TestCase) (h : testCases ≠ []) :
    Option (RunAnswer (fun _ => 0) id (echo testCases h)) :=
  RunAnswer.of (fun _ => 0) id (echo testCases h) printsOne

/-- With the sample in front its detail is shown. -/
theorem labelledRight_sampleFirst :
    ∃ a, answerOne [sampleCase, hiddenCase] (List.cons_ne_nil _ _) = some a ∧
      LabelledRight a ⟨none, none, none⟩ := by
  obtain ⟨a, ha⟩ : ∃ a, answerOne [sampleCase, hiddenCase] (List.cons_ne_nil _ _) = some a := by
    rw [← Option.isSome_iff_exists]
    decide +kernel
  have htests : (answerOne [sampleCase, hiddenCase] (List.cons_ne_nil _ _)).map
      (fun a => Judge.tests a.result) = some [1] := by
    decide +kernel
  rw [ha, Option.map_some, Option.some.injEq] at htests
  refine ⟨a, ha, (labelledRight_iff (by decide) a rfl).mpr (Or.inr ?_)⟩
  rw [htests]
  intro t ht
  obtain rfl := List.mem_singleton.mp ht
  exact ⟨sampleCase, rfl, rfl⟩

/-- With the sample behind a hidden test case its detail is stripped. -/
theorem sample_stripped :
    ¬∀ (bson : JsValue → GoValue) (outside : ℚ → ℤ) (decodeError : String → String)
      (s : StoredProblem bson) (a : RunAnswer outside decodeError s) (payload : RunPayload),
      s.api.testCases.length < 2 ^ 53 → payload.customTests.getD [] = [] →
        LabelledRight a payload := by
  intro h
  obtain ⟨a, ha⟩ : ∃ a, answerOne [hiddenCase, sampleCase] (List.cons_ne_nil _ _) = some a := by
    rw [← Option.isSome_iff_exists]
    decide +kernel
  have htests : (answerOne [hiddenCase, sampleCase] (List.cons_ne_nil _ _)).map
      (fun a => Judge.tests a.result) = some [1] := by
    decide +kernel
  rw [ha, Option.map_some, Option.some.injEq] at htests
  obtain ⟨d, hd, hnumber⟩ : ∃ d, a.result.details[0]? = some d ∧ d.test = 1 := by
    have hfirst := congrArg (fun l : List ℤ => l[0]?) htests
    unfold Judge.tests at hfirst
    simpa using hfirst
  have hparse := a.details_parse
  split_ifs at hparse with hnil
  · rw [hnil] at hd
    cases hd
  obtain ⟨ms, raw, hdetails, hread⟩ := hparse
  obtain ⟨v, hv⟩ : ∃ v, raw[0]? = some v := by
    have hlt : 0 < raw.length := by
      rw [← hread.length_eq]
      exact List.length_pos_iff.mpr hnil
    exact ⟨_, List.getElem?_eq_getElem hlt⟩
  obtain ⟨returned, hresponse, hreturned⟩ :=
    a.response (show (⟨none, none, none⟩ : RunPayload).customTests.getD [] = [] from rfl) hdetails
      hread
  obtain ⟨returned', hresponse', hall⟩ :=
    h bsonText _ _ _ a ⟨none, none, none⟩ (by decide) rfl ms raw hdetails
  -- it is looked up as the first test case, which is hidden
  have hstripped : returned[0]? = some (labelled hiddenCase (spread v)) := by
    rw [hreturned 0, hv]
    exact (forall₂_getElem hread hd hv).sanitizeDetail (by omega) (by omega) (by rw [hnumber]; rfl) 0
  have hshown : returned'[0]? = some (labelled sampleCase (spread v)) :=
    hall 0 d v sampleCase hd hv (by rw [hnumber]; rfl)
  have hsame : returned' = returned :=
    withDetails_injective ms (Except.ok.inj (hresponse'.symm.trans hresponse))
  rw [hsame, hstripped, Option.some.injEq, (forall₂_getElem hread hd hv).labelled_eq_iff] at hshown
  exact absurd hshown (by decide)

end Api
