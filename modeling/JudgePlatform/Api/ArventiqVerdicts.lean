/-
# Verdicts for Arventiq

`mapSubmissionToArventiqVerdict` (`services/arventiq.service.js`): the verdict that Arventiq
polls for, made from what the judge has stored of a submission.  It is null as long as
there is nothing to report.

* `mapped_processed` : the verdict after `processAndStoreResults`.
* `arventiq_reported_iff` : after which ends of an execution there is a verdict, and the
  right one.
-/
import JudgePlatform.Api.Verdicts

namespace Api

open JsValue

/-! ## The mapping -/

/-- A verdict in the answer: a text, or what the table of verdicts inherits from every
object under a name. -/
inductive MappedVerdict where
  | text (s : String)
  | inherited (name : String)
  deriving DecidableEq

/-- The own properties of `VERDICT_MAP`. -/
def VERDICT_MAP : List (String × String) := [
  ("Accepted", "accepted"),
  ("Wrong Answer", "wrong_answer"),
  ("Time Limit Exceeded", "time_limit_exceeded"),
  ("Memory Limit Exceeded", "memory_limit_exceeded"),
  ("Runtime Error", "runtime_error"),
  ("Compilation Error", "compilation_error")]

/-- The properties of every object, all of which count as true. -/
def objectProperties : List String := [
  "constructor", "hasOwnProperty", "isPrototypeOf", "propertyIsEnumerable", "toLocaleString",
  "toString", "valueOf", "__defineGetter__", "__defineSetter__", "__lookupGetter__",
  "__lookupSetter__", "__proto__"]

/-- `VERDICT_MAP[status] || "runtime_error"`, for the text that the judge stores. -/
def verdictOf : Option JsValue → MappedVerdict
  | some (str status) =>
    match lookup VERDICT_MAP status with
    | some v => .text v
    | none => if status ∈ objectProperties then .inherited status else .text "runtime_error"
  | _ => .text "runtime_error"

def mapCaseVerdict (detail : Members) (submissionVerdict : MappedVerdict) : MappedVerdict :=
  if lookup detail "error" matches some (str "Time Limit Exceeded") ∨
      lookup detail "errorType" matches some (str "timeout") then .text "time_limit_exceeded"
  else if lookup detail "errorType" matches some (str "memory_limit") then
    .text "memory_limit_exceeded"
  else if truthy (firstOf detail ["passed", "ok"]) then .text "accepted"
  else if lookup detail "errorType" matches some (str "wrong_answer") then .text "wrong_answer"
  else if truthy (lookup detail "error") then .text "runtime_error"
  else submissionVerdict

/-- One of the `cases` of the answer; its `weight` is 1 and its `group` null. -/
structure MappedCase where
  index : JsValue
  verdict : MappedVerdict
  timeMs : JsValue
  memoryKb : JsValue
  passed : Bool
  input : Option JsValue
  expected : Option JsValue
  actual : Option JsValue
  stderr : JsValue

/-- `x ?? d` -/
def withDefault (x : Option JsValue) (d : JsValue) : JsValue := (orElse x (some d)).getD d

/-- `x || d` -/
def ifTruthy (x : Option JsValue) (d : JsValue) : JsValue := if truthy x then x.getD d else d

def mapCase (verdict : MappedVerdict) (idx : ℕ) (d : Members) : MappedCase where
  index := withDefault (lookup d "test") (num (.ofInt (idx + 1)))
  verdict := mapCaseVerdict d verdict
  timeMs := withDefault (lookup d "timeMs") (num .zero)
  memoryKb := ifTruthy (lookup d "memoryKb") null
  passed := truthy (firstOf d ["passed", "ok"])
  input := lookup d "input"
  expected := lookup d "expected"
  actual := firstOf d ["output", "stdout"]
  stderr := ifTruthy (lookup d "stderr") (str "")

/-- The details in turn; reading a property of `null` throws. -/
def mapCases (verdict : MappedVerdict) : ℕ → List JsValue → Option (List MappedCase)
  | _, [] => some []
  | _, null :: _ => none
  | idx, d :: ds => (mapCases verdict (idx + 1) ds).map (mapCase verdict idx (spread d) :: ·)

/-- What Arventiq is told. -/
structure ArventiqVerdict where
  verdict : MappedVerdict
  score : Binary64
  maxTimeMs : JsValue
  compileOutput : JsValue
  passedCount : JsValue
  totalCount : JsValue
  cases : List MappedCase

/-- `Array.isArray(x) ? x : []` -/
def arrayOf : Option JsValue → List JsValue
  | some (arr xs) => xs
  | _ => []

/-- The number that a count is. -/
def numberOf : JsValue → Binary64
  | num x => x
  | _ => .nan

/-- `Number(x.toFixed(4))` below `10 ^ 21`, ties away from zero; other numbers stay. -/
def toFixed4 (x : Binary64) : Binary64 :=
  match x.toRat with
  | none => x
  | some q =>
    if |q| < 10 ^ 21 then
      .ofRat ((if q < 0 then -⌊-q * 10 ^ 4 + 1 / 2⌋ else ⌊q * 10 ^ 4 + 1 / 2⌋ : ℤ) / 10 ^ 4)
    else x

/-- `mapSubmissionToArventiqVerdict`: the inner `none` is its null, the outer one a
`TypeError`. -/
def mapSubmissionToArventiqVerdict (submission : Properties) : Option (Option ArventiqVerdict) :=
  if !truthy (submission "testResult") ∨ submission "status" matches some (str "Pending") ∨
      submission "status" matches some (str "Running") then some none
  else
    let tr := spread ((submission "testResult").getD null)
    let verdict := verdictOf (lookup tr "status")
    let total := withDefault (firstOf tr ["total", "totalCount"]) (num .zero)
    let passed := withDefault (firstOf tr ["passed", "passedCount"]) (num .zero)
    (mapCases verdict 0 (arrayOf (lookup tr "details"))).map fun cases => some {
      verdict := verdict
      score := if Binary64.zero.lt (numberOf total) then
        toFixed4 ((numberOf passed).div (numberOf total)) else .zero
      maxTimeMs := withDefault (lookup tr "maxTimeMs") (num .zero)
      compileOutput := if verdict = .text "compilation_error" then
        ifTruthy (submission "output") null else null
      passedCount := passed
      totalCount := total
      cases := cases }

/-! ## The ends of an execution -/

/-- How the judge finishes a submission: it stores what came of an execution, whether that
is a result, a compilation that failed or another error, or it gives up after its retries. -/
inductive JudgeExit where
  | processed (executionPath stdout stderr : String) (execErr : Option Judge.GoError)
      (decodeError : String)
  | retriesExhausted (reason : String)

/-- The submission after an end: the writes of `processAndStoreResults` and of
`markSubmissionExecutionFailed`. -/
def Submission.after (bson : GoValue → JsValue) (d : Submission) : JudgeExit → Submission
  | .processed executionPath stdout stderr execErr decodeError =>
    let o := Judge.outcome executionPath stdout stderr execErr decodeError
    d.withResult o.status o.output (some (Judge.resultDocument bson o.testResult))
  | .retriesExhausted reason => d.withFailure reason

/-- The request that an end makes of the store. -/
def JudgeExit.write (bson : GoValue → JsValue) (id : ObjectId) : JudgeExit → Request
  | .processed executionPath stdout stderr execErr decodeError =>
    let o := Judge.outcome executionPath stdout stderr execErr decodeError
    .storeResult id o.status o.output (some (Judge.resultDocument bson o.testResult))
  | .retriesExhausted reason => .storeFailure id reason

/-- The submission in the store after the write of an end. -/
theorem submission_after (bson : GoValue → JsValue) (c : Choice) (hc : c.refused = false)
    (s : Store) (id : ObjectId) (e : JudgeExit) :
    (serve c s (e.write bson id)).2.submission id = (s.submission id).map (·.after bson e) := by
  have hserve : ∀ r : Request, serve c s r = answer c s r := by
    intro r
    unfold serve
    rw [hc, if_neg (by simp)]
  rw [hserve]
  cases e with
  | processed executionPath stdout stderr execErr decodeError =>
    refine (findDoc_updateDoc Submission.id (f := Submission.withResult _ _ _) (fun _ => rfl)
      s.submissions id id).trans ?_
    rw [if_pos rfl]
    rfl
  | retriesExhausted reason =>
    refine (findDoc_updateDoc Submission.id (f := Submission.withFailure reason) (fun _ => rfl)
      s.submissions id id).trans ?_
    rw [if_pos rfl]
    rfl

/-! ## The verdict of a stored result -/

theorem mapCases_ok (verdict : MappedVerdict) {ds : List JsValue} (h : ∀ d ∈ ds, d ≠ null)
    (idx : ℕ) : ∃ cases, mapCases verdict idx ds = some cases := by
  induction ds generalizing idx with
  | nil => exact ⟨[], rfl⟩
  | cons d ds ih =>
    obtain ⟨hd, hds⟩ := List.forall_mem_cons.mp h
    obtain ⟨cases, hcases⟩ := ih hds (idx + 1)
    refine ⟨mapCase verdict idx (spread d) :: cases, ?_⟩
    rw [mapCases, hcases]
    · rfl
    · exact hd

/-- Only Accepted is mapped to accepted. -/
theorem verdictOf_accepted (status : String) :
    verdictOf (some (str status)) = .text "accepted" ↔ status = Judge.submissionStatusAccepted := by
  have hkeys : (VERDICT_MAP.map Prod.fst).Nodup := by decide
  have htable : lookup VERDICT_MAP status = some "accepted" ↔
      status = Judge.submissionStatusAccepted := by
    rw [lookup_eq_some_iff hkeys]
    simp [VERDICT_MAP, Judge.submissionStatusAccepted]
  rw [← htable]
  unfold verdictOf
  simp only
  cases hlookup : lookup VERDICT_MAP status with
  | some v => simp
  | none =>
    simp only
    split_ifs <;> simp

/-- **A submission with a stored result has a verdict**, that of the result. -/
theorem mapped_result (bson : GoValue → JsValue) (d : Submission) (sr : Judge.SubmissionResult)
    (hpending : d.status ≠ .pending) (hrunning : d.status ≠ .running)
    (hresult : d.testResult = some (Judge.resultDocument bson (some sr))) :
    ∃ v, mapSubmissionToArventiqVerdict d.properties = some (some v) ∧
      v.verdict = verdictOf (some (str sr.status)) := by
  have hdoc : Judge.resultDocument bson (some sr) =
    obj (GoRecord.members Judge.submissionResultFields (GoRecord.bsonEncoding bson) sr) := rfl
  set ms := GoRecord.members Judge.submissionResultFields (GoRecord.bsonEncoding bson) sr with hms
  have hstatus : lookup ms "status" = some (str sr.status) :=
    GoRecord.lookup_members Judge.nodup_submissionResultFields
      (f := Judge.submissionResultFields[0]) (List.getElem_mem _)
  have hdetails : lookup ms "details" =
      if sr.details.isEmpty then none
      else some (arr (sr.details.map
        ((GoRecord.record Judge.testResultFields).encode (GoRecord.bsonEncoding bson)))) :=
    GoRecord.lookup_members Judge.nodup_submissionResultFields
      (f := Judge.submissionResultFields[9]) (List.getElem_mem _)
  have hds : ∀ d ∈ arrayOf (lookup ms "details"), d ≠ null := by
    rw [hdetails]
    split_ifs
    · exact fun d h => absurd h List.not_mem_nil
    · intro d hd
      obtain ⟨tr, -, rfl⟩ := List.mem_map.mp hd
      exact fun h => by cases h
  obtain ⟨cases, hcases⟩ := mapCases_ok (verdictOf (lookup ms "status")) hds 0
  have hstarted : ¬(!truthy (d.properties "testResult") ∨
      (d.properties "status" matches some (str "Pending")) ∨
        (d.properties "status" matches some (str "Running"))) := by
    rw [properties_testResult, properties_status, hresult, hdoc]
    cases hst : d.status with
    | pending => exact absurd hst hpending
    | running => exact absurd hst hrunning
    | _ => simp [truthy, SubmissionStatus.text]
  unfold mapSubmissionToArventiqVerdict
  rw [if_neg hstarted, properties_testResult, hresult, hdoc]
  simp only [Option.getD_some, spread, hcases, Option.map_some]
  refine ⟨_, rfl, ?_⟩
  show verdictOf (lookup ms "status") = _
  rw [hstatus]

/-- Without one there is none. -/
theorem mapped_none (d : Submission) (h : truthy d.testResult = false) :
    mapSubmissionToArventiqVerdict d.properties = some none := by
  unfold mapSubmissionToArventiqVerdict
  rw [properties_testResult, h, if_pos (.inl rfl)]

theorem storedStatus_terminal (status : String) :
    Judge.storedStatus status ≠ .pending ∧ Judge.storedStatus status ≠ .running := by
  unfold Judge.storedStatus
  split_ifs <;> decide

/-- What is stored of an execution: a result with its status, or no result when there is
neither output nor an error. -/
theorem outcome_cases (executionPath stdout stderr : String) (execErr : Option Judge.GoError)
    (decodeError : String) :
    let o := Judge.outcome executionPath stdout stderr execErr decodeError
    (o.status ≠ .pending ∧ o.status ≠ .running) ∧
      ((stdout ≠ "" ∨ execErr ≠ none) ∧ (∃ sr, o.testResult = some sr ∧
          (sr.status = Judge.submissionStatusAccepted ↔ o.status = .success)) ∨
        ¬(stdout ≠ "" ∨ execErr ≠ none) ∧ o.testResult = none) := by
  have herror : SubmissionStatus.error ≠ .pending ∧ SubmissionStatus.error ≠ .running := by decide
  have hfailed : ∀ text, ∃ sr, (Judge.failedOutcome
      (Judge.fallbackResultForExecutionFailure executionPath execErr stdout) stderr
        text).testResult = some sr ∧
      (sr.status = Judge.submissionStatusAccepted ↔ SubmissionStatus.error = .success) := by
    intro text
    refine ⟨_, rfl, ?_⟩
    exact iff_of_false (Judge.fallback_not_accepted executionPath execErr stdout) (by decide)
  intro o
  simp only [o]
  unfold Judge.outcome
  by_cases hout : stdout ≠ ""
  · rw [if_pos hout]
    cases Judge.unmarshalResult stdout with
    | some result =>
      refine ⟨storedStatus_terminal _, .inl ⟨.inl hout, _, rfl, ?_⟩⟩
      exact (Judge.storedStatus_eq_success _).symm
    | none => exact ⟨herror, .inl ⟨.inl hout, hfailed _⟩⟩
  · rw [if_neg hout]
    cases execErr with
    | some err => exact ⟨herror, .inl ⟨.inr (by simp), hfailed _⟩⟩
    | none => exact ⟨herror, .inr ⟨by simpa using hout, rfl⟩⟩

/-! ## When there is a verdict -/

/-- Every end is terminal. -/
theorem after_terminal (bson : GoValue → JsValue) (d : Submission) (e : JudgeExit) :
    (d.after bson e).status ≠ .pending ∧ (d.after bson e).status ≠ .running := by
  cases e with
  | processed executionPath stdout stderr execErr decodeError =>
    exact (outcome_cases executionPath stdout stderr execErr decodeError).1
  | retriesExhausted reason =>
    exact ⟨by simp [Submission.after, Submission.withFailure],
      by simp [Submission.after, Submission.withFailure]⟩

/-- There is a verdict, and it is accepted just when the submission is a success. -/
def ReportedWell (d : Submission) : Prop :=
  ∃ v, mapSubmissionToArventiqVerdict d.properties = some (some v) ∧
    (v.verdict = .text "accepted" ↔ d.status = .success)

/-- What an end has to have: output or an error to make a result of, or, where the judge
gives up, a result of an earlier execution that was not accepted. -/
def JudgeExit.Reports (prior : Option (Option Judge.SubmissionResult)) : JudgeExit → Prop
  | .processed _ stdout _ execErr _ => stdout ≠ "" ∨ execErr ≠ none
  | .retriesExhausted _ =>
    ∃ sr, prior = some (some sr) ∧ sr.status ≠ Judge.submissionStatusAccepted

/-- A submission before an end: it has no result, or that of an earlier execution of the
same message. -/
def Submission.withPrior (bson : GoValue → JsValue)
    (prior : Option (Option Judge.SubmissionResult)) (d : Submission) : Submission :=
  { d with testResult := prior.map (Judge.resultDocument bson) }

theorem reportedWell_of_result (bson : GoValue → JsValue) {d : Submission}
    {sr : Judge.SubmissionResult} (hst : d.status ≠ .pending ∧ d.status ≠ .running)
    (hresult : d.testResult = some (Judge.resultDocument bson (some sr))) :
    ReportedWell d ↔ (sr.status = Judge.submissionStatusAccepted ↔ d.status = .success) := by
  obtain ⟨v, hv, hverdict⟩ := mapped_result bson d sr hst.1 hst.2 hresult
  constructor
  · rintro ⟨w, hw, haccepted⟩
    rw [hv] at hw
    obtain rfl := Option.some.inj (Option.some.inj hw)
    rwa [hverdict, verdictOf_accepted] at haccepted
  · intro h
    refine ⟨v, hv, ?_⟩
    rw [hverdict, verdictOf_accepted]
    exact h

theorem not_reportedWell_of_none {d : Submission} (h : truthy d.testResult = false) :
    ¬ReportedWell d := by
  rintro ⟨v, hv, -⟩
  rw [mapped_none d h] at hv
  cases hv

/-- **When Arventiq learns the verdict**: exactly when the judge ends with output or an
error, or gives up on a submission that has an earlier result which was not accepted. -/
theorem arventiq_reported_iff (bson : GoValue → JsValue) (d : Submission)
    (prior : Option (Option Judge.SubmissionResult)) (e : JudgeExit) :
    ReportedWell ((d.withPrior bson prior).after bson e) ↔ e.Reports prior := by
  have hst := after_terminal bson (d.withPrior bson prior) e
  cases e with
  | processed executionPath stdout stderr execErr decodeError =>
    obtain ⟨-, hcases⟩ := outcome_cases executionPath stdout stderr execErr decodeError
    rcases hcases with ⟨hends, sr, hsr, hstatus⟩ | ⟨hends, hnone⟩
    · refine iff_of_true ?_ hends
      refine (reportedWell_of_result bson hst (congrArg (fun r => some (Judge.resultDocument bson r))
        hsr)).mpr hstatus
    · refine iff_of_false (not_reportedWell_of_none ?_) hends
      show truthy (some (Judge.resultDocument bson _)) = false
      rw [hnone]
      rfl
  | retriesExhausted reason =>
    cases prior with
    | none =>
      refine iff_of_false (not_reportedWell_of_none rfl) ?_
      rintro ⟨sr, hsr, -⟩
      cases hsr
    | some result =>
      cases result with
      | none =>
        refine iff_of_false (not_reportedWell_of_none rfl) ?_
        rintro ⟨sr, hsr, -⟩
        cases hsr
      | some sr =>
        rw [reportedWell_of_result bson hst rfl]
        have herror : ((d.withPrior bson (some (some sr))).after bson
            (.retriesExhausted reason)).status ≠ .success := by
          simp [Submission.after, Submission.withFailure]
        rw [iff_false_right herror]
        constructor
        · exact fun h => ⟨sr, rfl, h⟩
        · rintro ⟨sr', hsr', h⟩
          obtain rfl := Option.some.inj (Option.some.inj hsr')
          exact h

/-- A first attempt at a solution of Arventiq's. -/
def externalSubmission : Submission where
  id := "68a4c0"
  problemId := "68a4b1"
  userId := "68a4a2"
  assessmentId := none
  attemptId := none
  collegeId := none
  score := .zero
  code := "print(1)"
  language := "python"
  status := .running
  output := none
  testResult := none
  externalStudentId := some "student-12"
  externalAssessmentId := some "assessment-4"

/-- When no container could be had for it, its status is Error and Arventiq is told nothing. -/
theorem retriesExhausted_not_reported :
    let d := externalSubmission.after (fun _ => null)
      (.retriesExhausted "No available python execution containers after 3 retries")
    d.status = .error ∧ mapSubmissionToArventiqVerdict d.properties = some none := by
  intro d
  constructor
  · rfl
  · exact mapped_none d rfl

end Api
