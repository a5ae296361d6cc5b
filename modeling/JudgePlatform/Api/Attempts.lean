/-
# Assessment attempts

The functions of the assessments service that read or change an attempt, as
programs over the store: `submitAssessment`, `getAssessmentAttemptById`,
`recalculateAttemptScore`, `addGraceTime`, `raiseChallenge`, `resolveChallenge`
and `getAssessmentAttendance`.  Each of them reads the attempt first, decides
from what it read, and then updates the attempt by its identifier alone.
-/
import JudgePlatform.Api.Store

namespace Api

/-- An asynchronous function of the API. -/
abbrev Task (α : Type) := Program Reply ServiceError α

/-! ## Requests and checks -/

abbrev ask (r : Request) : Task (Reply r) := Program.call r

/-- The value of an option, or an error. -/
def demand {α : Type} (x : Option α) (e : ServiceError) : Task α :=
  match x with
  | some a => pure a
  | none => throw e

/-- Go on only under a condition. -/
def require (c : Prop) [Decidable c] (e : ServiceError) : Task Unit :=
  if c then pure () else throw e

/-- A superadmin looks across colleges, everyone else into their own. -/
def collegeScopeFor (user : User) : Option ObjectId :=
  if user.role = .superadmin then none else user.collegeId

/-- `attempt.studentId._id || attempt.studentId`; the reference of a deleted student is null. -/
def FoundAttempt.studentId (a : FoundAttempt) : Task ObjectId := demand a.student .typeError

/-! ## Expiry -/

def minuteMs : Number := .ofInt 60000

def getExpirationTime (attempt : Attempt) (assessment : Assessment) : Date :=
  let graceMs := (orZero attempt.graceMinutes).mul minuteMs
  let durationMs := (assessment.durationMinutes.mul minuteMs).add graceMs
  let relativeExpiry := newDate (attempt.startedAt.add durationMs)
  let absoluteExpiry := newDate (assessment.endTime.add graceMs)
  if relativeExpiry.lt absoluteExpiry then relativeExpiry else absoluteExpiry

def isAttemptExpired (attempt : Attempt) (assessment : Assessment) : Task Bool := do
  let now ← ask .now
  return (getExpirationTime attempt assessment).lt now

/-! ## The score -/

/-- The sum of the maximal scores of the solved problems; the reference of a deleted
problem is null, and reading its identifier throws. -/
def totalScore (solved : ObjectId → Bool) : List (Option ObjectId × Number) → Number → Option Number
  | [], total => some total
  | (none, _) :: _, _ => none
  | (some pId, maxScore) :: ps, total =>
    totalScore solved ps (if solved pId then total.add maxScore else total)

/-- `new Set(submissions.map(s => String(s.problemId)))` -/
def solvedProblemIds (submissions : List Submission) (pId : ObjectId) : Bool :=
  submissions.any fun d => d.problemId = pId

def recalculateAttemptScore (attemptId : ObjectId) : Task Unit := do
  match ← ask (.findAttempt attemptId none) with
  | none => pure ()
  | some attempt =>
    match ← ask (.findAssessment attempt.assessment none) with
    | none => pure ()
    | some assessment =>
      let submissions ← ask (.findSuccessful attempt.doc.id)
      let total ← demand (totalScore (solvedProblemIds submissions) assessment.problems .zero)
        .typeError
      if attempt.doc.score.eq total then pure ()
      else
        let _ ← ask (.updateAttempt attemptId { score := some total })
        pure ()

/-! ## Closing an attempt -/

def timeOut (expiration : Date) : AttemptUpdate :=
  { status := some .timedOut, submittedAt := some (some expiration) }

/-- The time-out that `submitAssessment` writes. -/
def timeOutLogged (expiration : Date) : AttemptUpdate :=
  { timeOut expiration with push := some (.timedOut expiration) }

def submit (submittedAt timestamp : Date) : AttemptUpdate :=
  { status := some .submitted
    submittedAt := some (some submittedAt)
    push := some (.submit timestamp) }

/-- Audit logging is best-effort and left out: its failure is caught. -/
def submitAssessment (attemptId : ObjectId) (user : User) : Task (Option Attempt) := do
  let attempt ← demand (← ask (.findAttempt attemptId (collegeScopeFor user)))
    (.http 404 "Attempt not found")
  let assessment ← demand (← ask (.findAssessment attempt.assessment (collegeScopeFor user)))
    (.http 404 "Assessment not found")
  let studentId ← attempt.studentId
  require (user.role = .student → studentId = user.id) (.http 403 "Forbidden")
  if attempt.doc.status ≠ .active then return some attempt.doc
  else if ← isAttemptExpired attempt.doc assessment.doc then
    recalculateAttemptScore attemptId
    ask (.updateAttempt attemptId (timeOutLogged (getExpirationTime attempt.doc assessment.doc)))
  else
    recalculateAttemptScore attemptId
    let submittedAt ← ask .now
    let timestamp ← ask .now
    let result ← demand (← ask (.updateAttempt attemptId (submit submittedAt timestamp))) .typeError
    return some result

/-! ## Reading an attempt -/

/-- The place of a problem in the attempt's own order. -/
def orderIndex (order : List ObjectId) (pId : Option ObjectId) : ℕ :=
  match pId.bind order.reverse.idxOf? with
  | some i => order.length - 1 - i
  | none => 999

/-- The problems in the attempt's order; comparing a deleted problem throws. -/
def sortProblems (order : List ObjectId) (problems : List (Option ObjectId × Number)) :
    Option (List (Option ObjectId × Number)) :=
  if 2 ≤ problems.length ∧ problems.any fun p => p.1 = none then none
  else some (problems.mergeSort fun p q => orderIndex order p.1 ≤ orderIndex order q.1)

/-- The automatic time-out of a read. -/
def timeOutExpired (attemptId : ObjectId) (attempt : Attempt) (assessment : Assessment) :
    Task Unit := do
  if attempt.status = .active then
    if ← isAttemptExpired attempt assessment then
      let _ ← ask (.updateAttempt attemptId (timeOut (getExpirationTime attempt assessment)))
      pure ()
    else pure ()
  else pure ()

/-- An attempt with the problems of its assessment in the order of the attempt. -/
structure AttemptDetails where
  attempt : FoundAttempt
  problems : Option (List (Option ObjectId × Number))

def getAssessmentAttemptById (attemptId : ObjectId) (user : User) :
    Task (Option AttemptDetails) := do
  match ← ask (.findAttempt attemptId (collegeScopeFor user)) with
  | none => return none
  | some attempt =>
    match ← ask (.findAssessment attempt.assessment (collegeScopeFor user)) with
    | none => return none
    | some assessment =>
      timeOutExpired attemptId attempt.doc assessment.doc
      recalculateAttemptScore attemptId
      let finalAttempt ← demand (← ask (.findAttempt attemptId none)) .typeError
      let studentId ← finalAttempt.studentId
      require (user.role = .student → studentId = user.id) (.http 403 "Forbidden")
      if finalAttempt.doc.problemOrder = [] then return some ⟨finalAttempt, none⟩
      else
        let problems ← demand (sortProblems finalAttempt.doc.problemOrder assessment.problems)
          .typeError
        return some ⟨finalAttempt, some problems⟩

/-! ## Grace time -/

def addGrace (added total : Number) (timestamp : Date) (reopen : Bool) : AttemptUpdate :=
  { graceMinutes := some total
    status := if reopen then some .active else none
    submittedAt := if reopen then some none else none
    push := some (.graceTimeAdded timestamp added total) }

/-- `graceMinutes` is the number that `Number` makes of the value in the request. -/
def addGraceTime (attemptId : ObjectId) (graceMinutes : Number) (user : User) :
    Task (Option Attempt) := do
  require (user.role ≠ .student) (.http 403 "Forbidden")
  let attempt ← demand (← ask (.findAttempt attemptId (collegeScopeFor user)))
    (.http 404 "Attempt not found")
  let newGraceMinutes := (orZero attempt.doc.graceMinutes).add graceMinutes
  let timestamp ← ask .now
  ask (.updateAttempt attemptId
    (addGrace graceMinutes newGraceMinutes timestamp (attempt.doc.status = .timedOut)))

/-! ## Challenges -/

def raise (reason : Option String) (raisedAt timestamp : Date) : AttemptUpdate :=
  { challengeStatus := some .raised
    challengeReason := reason
    challengeRaisedAt := some raisedAt
    challengeFacultyComment := some ""
    push := some (.challengeRaised timestamp reason) }

def raiseChallenge (attemptId : ObjectId) (reason : Option String) (user : User) :
    Task (Option Attempt) := do
  let attempt ← demand (← ask (.findAttempt attemptId none)) (.http 404 "Attempt not found")
  let studentId ← attempt.studentId
  require (studentId = user.id) (.http 403 "Forbidden")
  require (attempt.doc.status ≠ .active)
    (.http 400 "Cannot challenge an active assessment attempt")
  require (attempt.doc.challenge.status = .none)
    (.http 409 "A challenge has already been raised for this attempt")
  let raisedAt ← ask .now
  let timestamp ← ask .now
  ask (.updateAttempt attemptId (raise reason raisedAt timestamp))

/-- The decisions that `resolveChallenge` takes. -/
def challengeDecision (status : String) : Option ChallengeStatus :=
  if status = "Accepted" then some .accepted
  else if status = "Rejected" then some .rejected
  else none

def resolve (decision : ChallengeStatus) (facultyComment : Option String)
    (resolvedAt timestamp : Date) : AttemptUpdate :=
  { challengeStatus := some decision
    challengeFacultyComment := some (facultyComment.getD "")
    challengeResolvedAt := some resolvedAt
    push := some (.challengeResolved timestamp decision facultyComment) }

def resolveChallenge (attemptId : ObjectId) (status : String) (facultyComment : Option String)
    (user : User) : Task (Option Attempt) := do
  let attempt ← demand (← ask (.findAttempt attemptId (collegeScopeFor user)))
    (.http 404 "Attempt not found")
  require (attempt.doc.challenge.status = .raised)
    (.http 400 "No active challenge found to resolve")
  let decision ← demand (challengeDecision status)
    (.http 400 "Invalid status. Must be Accepted or Rejected")
  let resolvedAt ← ask .now
  let timestamp ← ask .now
  ask (.updateAttempt attemptId (resolve decision facultyComment resolvedAt timestamp))

/-! ## Attendance -/

structure AttendanceRow where
  studentId : ObjectId
  /-- `none` where the student has not started -/
  status : Option AttemptStatus
  attemptId : Option ObjectId
  score : Number
  startedAt : Option Date
  submittedAt : Option Date
  challenge : Option Challenge

/-- The attempt of a student in a list; on the way to it, an attempt whose student was
deleted throws. -/
def findAttemptOf (studentId : ObjectId) : List FoundAttempt → Option (Option Attempt)
  | [] => some none
  | a :: attempts =>
    match a.student with
    | none => none
    | some id => if id = studentId then some (some a.doc) else findAttemptOf studentId attempts

def attendanceRow (attempts : List FoundAttempt) (student : Student) : Option AttendanceRow :=
  (findAttemptOf student.id attempts).map fun attempt =>
    { studentId := student.id
      status := attempt.map Attempt.status
      attemptId := attempt.map Attempt.id
      score := (attempt.map Attempt.score).getD .zero
      startedAt := attempt.map Attempt.startedAt
      submittedAt := attempt.bind Attempt.submittedAt
      challenge := attempt.map Attempt.challenge }

def getAssessmentAttendance (assessmentId : ObjectId) (user : User) :
    Task (List AttendanceRow) := do
  require (user.role ≠ .student) (.http 403 "Forbidden")
  let assessment ← demand (← ask (.findAssessment (some assessmentId) (collegeScopeFor user)))
    (.http 404 "Assessment not found")
  let students ← ask (.findStudents assessment.doc.collegeId)
  let attempts ← ask (.findAttempts assessmentId)
  demand (students.mapM (attendanceRow attempts)) .typeError

end Api
