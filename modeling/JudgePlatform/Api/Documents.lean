/-
# The documents of the assessment API

The records that the API keeps in MongoDB, with the fields that the modelled
services read or write, and the state of the API as a whole: the collections,
the Redis cache and the clock.  A reference is the identifier it holds; a
reference that `populate` finds no document for is `none` in the found record.
-/
import JudgePlatform.Library.JsValue

namespace Api

abbrev ObjectId := String

abbrev Number := Binary64

/-- The time value of a `Date`, in milliseconds; a NaN is an invalid date. -/
abbrev Date := Binary64

/-- `x || 0`. -/
def orZero (x : Number) : Number := if x.eq .zero ∨ x matches .nan then .zero else x

/-- The time value that a date made from a number has. -/
def newDate (x : Number) : Date :=
  match x.toRat with
  | some q => if |q| ≤ 8640000000000000 then .ofInt (if 0 ≤ q then ⌊q⌋ else ⌈q⌉) else .nan
  | none => .nan

inductive Role where
  | student
  | faculty
  | admin
  | superadmin
  deriving DecidableEq

/-- The authenticated user of a request. -/
structure User where
  id : ObjectId
  role : Role
  collegeId : Option ObjectId

/-! ## Assessments and attempts -/

structure AssessmentProblem where
  problemId : ObjectId
  maxScore : Number

structure Assessment where
  id : ObjectId
  endTime : Date
  durationMinutes : Number
  allowedLanguages : List String
  problems : List AssessmentProblem
  collegeId : Option ObjectId
  locked : Bool

inductive AttemptStatus where
  | active
  | submitted
  | timedOut
  deriving DecidableEq

inductive ChallengeStatus where
  | none
  | raised
  | accepted
  | rejected
  deriving DecidableEq

structure Challenge where
  status : ChallengeStatus
  reason : Option String
  facultyComment : Option String
  raisedAt : Option Date
  resolvedAt : Option Date

inductive TimelineEvent where
  | start (timestamp : Date)
  | submit (timestamp : Date)
  | timedOut (timestamp : Date)
  | submitProblem (timestamp : Date) (problemId : ObjectId) (problemTitle : String)
      (submissionId : ObjectId)
  | graceTimeAdded (timestamp : Date) (addedMinutes totalGraceMinutes : Number)
  | challengeRaised (timestamp : Date) (reason : Option String)
  | challengeResolved (timestamp : Date) (status : ChallengeStatus) (facultyComment : Option String)

structure Attempt where
  id : ObjectId
  assessmentId : ObjectId
  studentId : ObjectId
  collegeId : Option ObjectId
  startedAt : Date
  submittedAt : Option Date
  score : Number
  status : AttemptStatus
  graceMinutes : Number
  challenge : Challenge
  problemOrder : List ObjectId
  timeline : List TimelineEvent

/-- What one `findOneAndUpdate` sets and pushes; a field left `none` is untouched. -/
structure AttemptUpdate where
  status : Option AttemptStatus := none
  submittedAt : Option (Option Date) := none
  score : Option Number := none
  graceMinutes : Option Number := none
  challengeStatus : Option ChallengeStatus := none
  challengeReason : Option String := none
  challengeRaisedAt : Option Date := none
  challengeFacultyComment : Option String := none
  challengeResolvedAt : Option Date := none
  push : Option TimelineEvent := none

/-- The `$set` and `$push` of an update. -/
def AttemptUpdate.apply (u : AttemptUpdate) (a : Attempt) : Attempt :=
  { a with
    status := u.status.getD a.status
    submittedAt := u.submittedAt.getD a.submittedAt
    score := u.score.getD a.score
    graceMinutes := u.graceMinutes.getD a.graceMinutes
    challenge :=
      { status := u.challengeStatus.getD a.challenge.status
        reason := u.challengeReason.or a.challenge.reason
        raisedAt := u.challengeRaisedAt.or a.challenge.raisedAt
        facultyComment := u.challengeFacultyComment.or a.challenge.facultyComment
        resolvedAt := u.challengeResolvedAt.or a.challenge.resolvedAt }
    timeline := a.timeline ++ u.push.toList }

/-! ## Problems and submissions -/

structure TestCase where
  inputs : JsValue
  expected : JsValue
  isSample : Option Bool
  isHidden : Option Bool

structure CompareConfig where
  mode : Option String
  floatTolerance : Number
  orderInsensitive : Bool
  requireDeepCopy : Bool

structure Problem where
  id : ObjectId
  title : String
  problemType : Option String
  functionName : Option String
  compareConfig : Option CompareConfig
  testCases : List TestCase
  isPremium : Bool

inductive SubmissionStatus where
  | pending
  | running
  | success
  | fail
  | error
  deriving DecidableEq

structure Submission where
  id : ObjectId
  problemId : ObjectId
  userId : ObjectId
  assessmentId : Option ObjectId
  attemptId : Option ObjectId
  collegeId : Option ObjectId
  score : Number
  code : String
  language : String
  status : SubmissionStatus
  output : Option String
  testResult : Option JsValue
  externalStudentId : Option String
  externalAssessmentId : Option String

end Api
