/-
# Submitting and rejudging

The functions of the submissions service that create submissions or put them back
to be judged, and the writes of the judge that answer them: `submitSolution` with
`validateAssessmentSubmission`, `rejudgeSubmission`, `rejudgeProblemSubmissions`,
`rejudgeAssessmentSubmissions`, and the judge's `storeVerdict` and
`markSubmissionExecutionFailed`.
-/
import JudgePlatform.Api.Attempts

namespace Api

/-! ## Messages to the judge -/

/-- A test case is a sample when it says so, or does not hide; in doubt it is hidden. -/
def isSampleTestCase (tc : TestCase) : Bool :=
  match tc.isSample with
  | some b => b
  | none =>
    match tc.isHidden with
    | some b => !b
    | none => false

def buildJudgeTests (problem : Problem) : List JudgeTest :=
  problem.testCases.map fun tc =>
    { inputs := tc.inputs
      expected := tc.expected
      isHidden := !isSampleTestCase tc
      isSample := isSampleTestCase tc }

/-- `x || y` on strings. -/
def orString (x : Option String) (y : String) : String :=
  match x with
  | some s => if s = "" then y else s
  | none => y

def buildJudgeMessageBody (submissionId : ObjectId) (problem : Problem) (language code : String)
    (requestId : Option String) : JudgeMessage :=
  let problemType := orString problem.problemType "function"
  { submissionId
    problemId := problem.id
    language
    code
    tests := buildJudgeTests problem
    problemType
    compareMode := orString (problem.compareConfig.bind CompareConfig.mode) "EXACT"
    requestId
    functionName :=
      if problemType ≠ "stdin" then some (orString problem.functionName "solution") else none }

/-- The check of a message; the tests that `buildJudgeTests` makes have both fields. -/
def validateSubmissionMessage (msg : JudgeMessage) : Bool :=
  msg.submissionId ≠ "" && msg.problemId ≠ "" && msg.language ≠ "" && msg.code ≠ "" &&
    (msg.problemType = "stdin" || orString msg.functionName "" ≠ "")

/-! ## Submissions to an assessment -/

/-- `Math.min`. -/
def minNumber (x y : Number) : Number :=
  if x matches .nan ∨ y matches .nan then .nan else if x.le y then x else y

def getAttemptExpiration (attempt : Attempt) (assessment : Assessment) : Date :=
  let sixty : Number := .ofInt 60
  let thousand : Number := .ofInt 1000
  let graceMs := ((orZero attempt.graceMinutes).mul sixty).mul thousand
  let durationExpiry :=
    (attempt.startedAt.add ((assessment.durationMinutes.mul sixty).mul thousand)).add graceMs
  newDate (minNumber durationExpiry (assessment.endTime.add graceMs))

/-- `status.toLowerCase()`. -/
def AttemptStatus.lower : AttemptStatus → String
  | .active => "active"
  | .submitted => "submitted"
  | .timedOut => "timedout"

def validateAssessmentSubmission (problemId : ObjectId) (language : String) (userId : ObjectId)
    (assessmentId attemptId : Option ObjectId) : Task Unit := do
  match assessmentId, attemptId with
  | none, none => pure ()
  | some assessmentId, some attemptId =>
    let attempt ← demand (← ask (.findAttempt attemptId none)) (.http 404 "Attempt not found")
    require (attempt.student = some userId) (.http 403 "Forbidden: You do not own this attempt")
    require (attempt.assessment = some assessmentId)
      (.http 400 "Attempt does not belong to this assessment")
    let assessment ← demand (← ask (.findAssessment (some assessmentId) none))
      (.http 404 "Assessment not found")
    require (assessment.doc.locked = false)
      (.http 409 "Assessment is locked by the faculty and no longer accepts submissions")
    require (attempt.doc.status = .active)
      (.http 409 ("Attempt is " ++ attempt.doc.status.lower ++ " and no longer accepts submissions"))
    let expiration := getAttemptExpiration attempt.doc assessment.doc
    let now ← ask .now
    if expiration.le now then
      let _ ← ask (.updateAttempt attemptId (timeOut expiration))
      throw (.http 409 "Attempt has timed out and no longer accepts submissions")
    else
      require (assessment.problems.any fun p => p.1 = some problemId)
        (.http 400 "Problem is not part of this assessment")
      require (assessment.doc.allowedLanguages = [] ∨ language ∈ assessment.doc.allowedLanguages)
        (.http 400 "Language is not allowed for this assessment")
  | _, _ =>
    throw (.http 400 "Assessment submissions require both assessmentId and attemptId")

/-- The arguments of `submitSolution`. -/
structure Solution where
  problemId : ObjectId
  code : String
  language : String
  userId : ObjectId
  collegeId : Option ObjectId
  assessmentId : Option ObjectId
  attemptId : Option ObjectId
  requestId : Option String
  externalStudentId : Option String
  externalAssessmentId : Option String

/-- The record of a new submission; its identifier is chosen when it is created. -/
def Solution.record (x : Solution) : Submission where
  id := ""
  problemId := x.problemId
  userId := x.userId
  assessmentId := x.assessmentId
  attemptId := x.attemptId
  collegeId := x.collegeId
  score := .zero
  code := x.code
  language := x.language
  status := .pending
  output := none
  testResult := none
  externalStudentId := x.externalStudentId
  externalAssessmentId := x.externalAssessmentId

/-- The quotas and the plan of the college, checked before anything is created. -/
def checkLimits (x : Solution) : Task Unit := do
  let allowed : Bool ← ask (.checkLimit (.studentQuota x.userId))
  require allowed (.http 429 "Submission quota exceeded")
  match x.collegeId with
  | none => pure ()
  | some collegeId =>
    let allowed : Bool ← ask (.checkLimit (.collegeQuota collegeId))
    require allowed (.http 429 "Submission quota exceeded")
    let allowed : Bool ← ask (.checkLimit (.planUsage collegeId))
    require allowed (.http 402 "Plan usage limit exceeded")

def checkPremium (x : Solution) (problem : Problem) : Task Unit := do
  match problem.isPremium, x.collegeId with
  | true, some collegeId =>
    let allowed : Bool ← ask (.checkLimit (.premium collegeId))
    require allowed (.http 402 "Upgrade required for premium problems")
  | _, _ => pure ()

/-- The event that a submission leaves in the timeline of its attempt; a failure to
log it is caught. -/
def logSubmission (x : Solution) (problem : Problem) (submission : Submission) : Task Unit := do
  match x.attemptId with
  | none => pure ()
  | some attemptId =>
    tryCatch
      (do
        let timestamp ← ask .now
        let _ ← ask (.updateAttempt attemptId
          { push := some (.submitProblem timestamp x.problemId problem.title submission.id) })
        pure ())
      fun _ => pure ()

/-- The created submission, or `none` for a problem that is not found. -/
def submitSolution (x : Solution) : Task (Option Submission) := do
  validateAssessmentSubmission x.problemId x.language x.userId x.assessmentId x.attemptId
  checkLimits x
  match ← ask (.findProblem x.problemId) with
  | none => return none
  | some problem =>
    checkPremium x problem
    let submission ← ask (.createSubmission x.record)
    logSubmission x problem submission
    let messageBody :=
      { buildJudgeMessageBody submission.id problem x.language x.code x.requestId with
        collegeId := x.collegeId }
    require (validateSubmissionMessage messageBody) (.http 500 "Invalid submission message")
    ask (.publish messageBody)
    return some submission

/-! ## Rejudging -/

def rejudgeSubmission (submissionId : ObjectId) : Task Unit := do
  let submission ← demand (← ask (.findSubmission submissionId))
    (.http 404 "Submission not found")
  let problem ← demand (← ask (.findProblem submission.problemId))
    (.http 404 "Problem not found for this submission")
  ask (.resetSubmission submission.id)
  let messageBody :=
    buildJudgeMessageBody submission.id problem submission.language submission.code none
  require (validateSubmissionMessage messageBody)
    (.http 500 "Invalid submission message configuration")
  ask (.publish messageBody)

/-- Reset a submission and queue it again. -/
def requeue (problem : Problem) (submission : Submission) : Task Unit := do
  ask (.resetSubmission submission.id)
  ask (.publish
    (buildJudgeMessageBody submission.id problem submission.language submission.code none))

def requeueAll (problem : Problem) : List Submission → Task Unit
  | [] => pure ()
  | d :: ds => do
    requeue problem d
    requeueAll problem ds

def rejudgeProblemSubmissions (problemId : ObjectId) (assessmentId : Option ObjectId) :
    Task ℕ := do
  let problem ← demand (← ask (.findProblem problemId)) (.http 404 "Problem not found")
  let submissions ← ask (.findSubmissions (some problemId) assessmentId)
  requeueAll problem submissions
  return submissions.length

/-- The loop over an assessment's submissions, with the problems found so far. -/
def requeueFound (problemsCache : List (ObjectId × Option Problem)) :
    List Submission → Task Unit
  | [] => pure ()
  | d :: ds => do
    let problem ←
      match problemsCache.find? fun e => e.1 = d.problemId with
      | some e => pure e.2
      | none => ask (.findProblem d.problemId)
    match problem with
    | none => pure ()
    | some p => requeue p d
    requeueFound ((d.problemId, problem) :: problemsCache) ds

def rejudgeAssessmentSubmissions (assessmentId : ObjectId) : Task ℕ := do
  let _ ← demand (← ask (.findAssessment (some assessmentId) none))
    (.http 404 "Assessment not found")
  let submissions ← ask (.findSubmissions none (some assessmentId))
  requeueFound [] submissions
  return submissions.length

end Api
