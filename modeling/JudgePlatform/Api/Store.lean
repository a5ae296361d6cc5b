/-
# The store behind the API and the requests to it

The MongoDB collections, the Redis cache, the submission queue and the clock as
one state, and the requests that the services and the judge make to them.  Each
request is atomic: `findOneAndUpdate` reads and writes one document in one step,
and what a service does between two of its requests touches no shared state.

`serve` is the only definition that changes the store.  What it leaves open comes
from a `Choice`: whether a request is refused (a lost connection), the identifier
of a new document, and the verdict of the quota and plan checks, whose counters
none of the other requests reads.
-/
import JudgePlatform.Api.Documents
import JudgePlatform.Library.Program

namespace Api

/-! ## Collections -/

section Collection

variable {α : Type} (key : α → ObjectId)

/-- The document with an identifier. -/
def findDoc (docs : List α) (id : ObjectId) : Option α := docs.find? fun d => key d = id

/-- Change the document with an identifier. -/
def updateDoc (docs : List α) (id : ObjectId) (f : α → α) : List α :=
  docs.map fun d => if key d = id then f d else d

theorem findDoc_key {docs : List α} {id : ObjectId} {d : α} (h : findDoc key docs id = some d) :
    key d = id := by
  simpa using List.find?_some h

/-- A changed collection differs in the one document only. -/
theorem findDoc_updateDoc {f : α → α} (hf : ∀ d, key (f d) = key d) (docs : List α)
    (id i : ObjectId) :
    findDoc key (updateDoc key docs id f) i =
      if i = id then (findDoc key docs i).map f else findDoc key docs i := by
  induction docs with
  | nil => simp [findDoc, updateDoc]
  | cons d docs ih =>
    have hkey : key (if key d = id then f d else d) = key d := by
      split
      · exact hf d
      · rfl
    unfold findDoc updateDoc at ih ⊢
    rw [List.map_cons, List.find?_cons, List.find?_cons, hkey]
    by_cases hd : key d = i
    · by_cases hi : i = id
      · simp [hd, hi]
      · simp [hd, hi]
    · simpa [hd] using ih

end Collection

/-! ## The state -/

structure Student where
  id : ObjectId
  collegeId : Option ObjectId

/-- A test case in a message to the judge. -/
structure JudgeTest where
  inputs : JsValue
  expected : JsValue
  isHidden : Bool
  isSample : Bool

/-- The body of a message on the submission queue. -/
structure JudgeMessage where
  submissionId : ObjectId
  problemId : ObjectId
  language : String
  code : String
  tests : List JudgeTest
  problemType : String
  compareMode : String
  functionName : Option String
  requestId : Option String := none
  collegeId : Option ObjectId := none

structure UsageEvent where
  submissionId : ObjectId
  userId : Option ObjectId
  language : String
  status : SubmissionStatus
  elapsedMs : ℤ
  collegeId : Option ObjectId

/-- How often a problem was submitted and accepted, `$inc`-remented by the judge. -/
structure ProblemCount where
  problemId : ObjectId
  submissionCount : ℤ
  acceptedCount : ℤ

structure Store where
  clock : Date
  students : List Student
  assessments : List Assessment
  attempts : List Attempt
  problems : List Problem
  counts : List ProblemCount
  submissions : List Submission
  usageEvents : List UsageEvent
  /-- the Redis keys that have a value, and its text -/
  cache : List (String × String)
  queue : List JudgeMessage

namespace Store

/-- The stored attempt. -/
def attempt (s : Store) (id : ObjectId) : Option Attempt := findDoc Attempt.id s.attempts id

def assessment (s : Store) (id : ObjectId) : Option Assessment :=
  findDoc Assessment.id s.assessments id

def problem (s : Store) (id : ObjectId) : Option Problem := findDoc Problem.id s.problems id

/-- The stored submission. -/
def submission (s : Store) (id : ObjectId) : Option Submission :=
  findDoc Submission.id s.submissions id

/-- The text under a Redis key. -/
def cached (s : Store) (k : String) : Option String := (s.cache.find? fun e => e.1 = k).map Prod.snd

end Store

/-! ## Found records -/

/-- An attempt with its populated references. -/
structure FoundAttempt where
  doc : Attempt
  student : Option ObjectId
  assessment : Option ObjectId

/-- An assessment whose problem references are populated. -/
structure FoundAssessment where
  doc : Assessment
  problems : List (Option ObjectId × Number)

/-- `populate("studentId")` and `populate("assessmentId")`. -/
def Store.populateAttempt (s : Store) (a : Attempt) : FoundAttempt where
  doc := a
  student := (findDoc Student.id s.students a.studentId).map Student.id
  assessment := (s.assessment a.assessmentId).map Assessment.id

/-- `populate("problems.problemId")`. -/
def Store.populateAssessment (s : Store) (a : Assessment) : FoundAssessment where
  doc := a
  problems := a.problems.map fun p => ((s.problem p.problemId).map Problem.id, p.maxScore)

/-- Whether a document is in the scope of a lookup: any document is when the lookup
names no college. -/
def inScope (scope collegeId : Option ObjectId) : Bool :=
  match scope with
  | none => true
  | some c => collegeId = some c

/-! ## Requests -/

/-- The checks of a submission whose counters are kept elsewhere. -/
inductive Limit where
  | studentQuota (userId : ObjectId)
  | collegeQuota (collegeId : ObjectId)
  | planUsage (collegeId : ObjectId)
  | premium (collegeId : ObjectId)

inductive Request where
  | now
  | findAttempt (id : ObjectId) (scope : Option ObjectId)
  | updateAttempt (id : ObjectId) (u : AttemptUpdate)
  | findAttempts (assessmentId : ObjectId)
  | findAssessment (id : Option ObjectId) (scope : Option ObjectId)
  | findStudents (collegeId : Option ObjectId)
  | findProblem (id : ObjectId)
  /-- `Submission.find({ attemptId, status: 'Success' })` -/
  | findSuccessful (attemptId : ObjectId)
  | findSubmission (id : ObjectId)
  /-- `Submission.find` by problem, by assessment or by both -/
  | findSubmissions (problemId assessmentId : Option ObjectId)
  /-- `Submission.find({ userId })` with `skip` and `limit`, newest first -/
  | findUserSubmissions (userId : ObjectId) (skip limit : ℕ)
  | createSubmission (d : Submission)
  /-- `submission.save()` after its result was taken off -/
  | resetSubmission (id : ObjectId)
  /-- the judge's `$set` of a result -/
  | storeResult (id : ObjectId) (status : SubmissionStatus) (output : String)
      (testResult : Option JsValue)
  /-- the judge's `$set` of a failure, which leaves the test result as it is -/
  | storeFailure (id : ObjectId) (reason : String)
  | countVerdict (problemId : ObjectId) (accepted : Bool)
  | recordUsage (e : UsageEvent)
  | getCache (key : String)
  | setCache (key text : String)
  /-- a Redis entry reaches its time to live -/
  | expireCache (key : String)
  | checkLimit (l : Limit)
  | publish (m : JudgeMessage)
  /-- time passes -/
  | wait (ms : ℕ)

/-- What a request is answered with. -/
def Reply : Request → Type
  | .now => Date
  | .findAttempt _ _ => Option FoundAttempt
  | .updateAttempt _ _ => Option Attempt
  | .findAttempts _ => List FoundAttempt
  | .findAssessment _ _ => Option FoundAssessment
  | .findStudents _ => List Student
  | .findProblem _ => Option Problem
  | .findSuccessful _ => List Submission
  | .findSubmission _ => Option Submission
  | .findSubmissions _ _ => List Submission
  | .findUserSubmissions _ _ _ => List Submission
  | .createSubmission _ => Submission
  | .getCache _ => Option String
  | .checkLimit _ => Bool
  | _ => Unit

/-- How an awaited function fails. -/
inductive ServiceError where
  | http (status : ℕ) (message : String)
  | typeError
  | syntaxError
  | unavailable
  deriving DecidableEq

structure Choice where
  refused : Bool := false
  newId : ObjectId := ""
  allowed : Bool := true

/-- The clock cannot be refused, nor time be stopped. -/
def Request.fallible : Request → Bool
  | .now => false
  | .wait _ => false
  | _ => true

/-- Neither an attempt, nor a new submission, nor a Redis entry is written. -/
def Request.isPlain : Request → Bool
  | .updateAttempt _ _ => false
  | .createSubmission _ => false
  | .setCache _ _ => false
  | _ => true

/-! ## Serving -/

namespace Store

/-- `findOneAndUpdate` on the attempts. -/
def updateAttempt (s : Store) (id : ObjectId) (u : AttemptUpdate) : Store :=
  { s with attempts := updateDoc Attempt.id s.attempts id u.apply }

/-- An update of one submission. -/
def updateSubmission (s : Store) (id : ObjectId) (f : Submission → Submission) : Store :=
  { s with submissions := updateDoc Submission.id s.submissions id f }

def setCache (s : Store) (k text : String) : Store :=
  { s with cache := (k, text) :: s.cache.filter fun e => e.1 ≠ k }

def expireCache (s : Store) (k : String) : Store :=
  { s with cache := s.cache.filter fun e => e.1 ≠ k }

def countVerdict (s : Store) (problemId : ObjectId) (accepted : Bool) : Store :=
  { s with
    counts := updateDoc ProblemCount.problemId s.counts problemId fun c =>
      { c with
        submissionCount := c.submissionCount + 1
        acceptedCount := c.acceptedCount + if accepted then 1 else 0 } }

end Store

/-- A submission whose result was taken off for a rejudge. -/
def Submission.reset (d : Submission) : Submission :=
  { d with status := .pending, score := .zero, output := none, testResult := none }

def Submission.withResult (status : SubmissionStatus) (output : String)
    (testResult : Option JsValue) (d : Submission) : Submission :=
  { d with status, output := some output, testResult }

def Submission.withFailure (reason : String) (d : Submission) : Submission :=
  { d with status := .error, output := some reason }

/-- Whether a submission is in the result of a query that may name a problem and
an assessment. -/
def Submission.matches (problemId assessmentId : Option ObjectId) (d : Submission) : Bool :=
  problemId.all (· = d.problemId) && assessmentId.all (d.assessmentId = some ·)

/-- A number that is not one fails the cast of an update. -/
def AttemptUpdate.failsCast (u : AttemptUpdate) : Bool :=
  u.graceMinutes matches some .nan || u.score matches some .nan

/-- Serve a request that is not refused. -/
def answer (c : Choice) (s : Store) : (r : Request) → Except ServiceError (Reply r) × Store
  | .now => (.ok s.clock, s)
  | .findAttempt id scope =>
    (.ok (((s.attempt id).filter fun a => inScope scope a.collegeId).map s.populateAttempt), s)
  | .updateAttempt id u =>
    if u.failsCast then (.error .unavailable, s)
    else (.ok ((s.attempt id).map u.apply), s.updateAttempt id u)
  | .findAttempts assessmentId =>
    (.ok ((s.attempts.filter (·.assessmentId = assessmentId)).map s.populateAttempt), s)
  | .findAssessment id scope =>
    (.ok (((id.bind s.assessment).filter fun a => inScope scope a.collegeId).map
      s.populateAssessment), s)
  | .findStudents collegeId =>
    (.ok (s.students.filter fun u => inScope collegeId u.collegeId), s)
  | .findProblem id => (.ok (s.problem id), s)
  | .findSuccessful attemptId =>
    (.ok (s.submissions.filter fun d => d.attemptId = some attemptId ∧ d.status = .success), s)
  | .findSubmission id => (.ok (s.submission id), s)
  | .findSubmissions problemId assessmentId =>
    (.ok (s.submissions.filter (·.matches problemId assessmentId)), s)
  | .findUserSubmissions userId skip limit =>
    (.ok (((s.submissions.reverse.filter (·.userId = userId)).drop skip).take limit), s)
  | .createSubmission d =>
    -- the identifier is new, and the schema requires the code and the language
    if (s.submission c.newId).isSome ∨ d.code = "" ∨ d.language = "" then (.error .unavailable, s)
    else (.ok { d with id := c.newId },
      { s with submissions := s.submissions ++ [{ d with id := c.newId }] })
  | .resetSubmission id => (.ok (), s.updateSubmission id Submission.reset)
  | .storeResult id status output testResult =>
    (.ok (), s.updateSubmission id (Submission.withResult status output testResult))
  | .storeFailure id reason => (.ok (), s.updateSubmission id (Submission.withFailure reason))
  | .countVerdict problemId accepted => (.ok (), s.countVerdict problemId accepted)
  | .recordUsage e => (.ok (), { s with usageEvents := s.usageEvents ++ [e] })
  | .getCache key => (.ok (s.cached key), s)
  | .setCache key text => (.ok (), s.setCache key text)
  | .expireCache key => (.ok (), s.expireCache key)
  | .checkLimit _ => (.ok c.allowed, s)
  | .publish m => (.ok (), { s with queue := s.queue ++ [m] })
  | .wait ms => (.ok (), { s with clock := s.clock.add (.ofInt ms) })

/-- Serve a request. -/
def serve (c : Choice) (s : Store) (r : Request) : Except ServiceError (Reply r) × Store :=
  if c.refused ∧ r.fallible then (.error .unavailable, s) else answer c s r

/-! ## What serving changes -/

@[simp] theorem id_apply (u : AttemptUpdate) (a : Attempt) : (u.apply a).id = a.id := rfl

theorem attempt_updateAttempt (s : Store) (id i : ObjectId) (u : AttemptUpdate) :
    (s.updateAttempt id u).attempt i =
      if i = id then (s.attempt i).map u.apply else s.attempt i :=
  findDoc_updateDoc Attempt.id (f := u.apply) (fun a => id_apply u a) s.attempts id i

/-- An update is refused without effect, or is performed. -/
theorem serve_updateAttempt (c : Choice) (s : Store) (id : ObjectId) (u : AttemptUpdate) :
    serve c s (.updateAttempt id u) = (.error .unavailable, s) ∨
      serve c s (.updateAttempt id u) =
        (.ok ((s.attempt id).map u.apply), s.updateAttempt id u) := by
  unfold serve
  split
  · exact Or.inl rfl
  · simp only [answer]
    split
    · exact Or.inl rfl
    · exact Or.inr rfl

/-- A refused request changes nothing. -/
theorem serve_error {c : Choice} {s : Store} {r : Request} {e : ServiceError}
    (h : (serve c s r).1 = .error e) : (serve c s r).2 = s := by
  unfold serve at h ⊢
  split
  · rfl
  · rename_i hc
    rw [if_neg hc] at h
    cases r with
    | updateAttempt id u =>
      simp only [answer] at h ⊢
      split at h
      · rename_i hcast
        rw [if_pos hcast]
      · cases h
    | createSubmission d =>
      simp only [answer] at h ⊢
      split at h
      · rename_i hnew
        rw [if_pos hnew]
      · cases h
    | _ => cases h

/-- Only `updateAttempt` changes the attempts. -/
theorem attempts_serve (c : Choice) (s : Store) {r : Request}
    (hr : ∀ id u, r ≠ .updateAttempt id u) : (serve c s r).2.attempts = s.attempts := by
  unfold serve
  split
  · rfl
  · cases r with
    | updateAttempt id u => exact absurd rfl (hr id u)
    | createSubmission d =>
      simp only [answer]
      split <;> rfl
    | _ => rfl

theorem cached_setCache (s : Store) (k text i : String) :
    (s.setCache k text).cached i = if i = k then some text else s.cached i := by
  unfold Store.setCache Store.cached
  rw [List.find?_cons]
  by_cases hi : i = k
  · simp [hi]
  · rw [if_neg hi, decide_eq_false (Ne.symm hi), List.find?_filter]
    show Option.map Prod.snd (List.find? _ s.cache) = _
    congr 2
    funext e
    by_cases he : e.1 = i
    · simp [he, hi]
    · simp [he]

theorem cached_expireCache (s : Store) (k i : String) :
    (s.expireCache k).cached i = if i = k then none else s.cached i := by
  unfold Store.expireCache Store.cached
  rw [List.find?_filter]
  by_cases hi : i = k
  · rw [if_pos hi, Option.map_eq_none_iff, List.find?_eq_none]
    intro e _
    simp [hi]
  · rw [if_neg hi]
    congr 2
    funext e
    by_cases he : e.1 = i
    · simp [he, hi]
    · simp [he]

/-- An entry that is there after a request was there before, or is the one written. -/
theorem cached_serve {c : Choice} {s : Store} {r : Request} {k text : String}
    (h : (serve c s r).2.cached k = some text) :
    s.cached k = some text ∨ r = .setCache k text := by
  unfold serve at h
  split at h
  · exact Or.inl h
  · cases r with
    | setCache i t =>
      have hset : (s.setCache i t).cached k = some text := h
      rw [cached_setCache] at hset
      by_cases hk : k = i
      · rw [if_pos hk, Option.some.injEq] at hset
        rw [hk, hset]
        exact Or.inr rfl
      · rw [if_neg hk] at hset
        exact Or.inl hset
    | expireCache i =>
      have hexpire : (s.expireCache i).cached k = some text := h
      rw [cached_expireCache] at hexpire
      split_ifs at hexpire
      exact Or.inl hexpire
    | updateAttempt id u =>
      simp only [answer] at h
      split at h
      · exact Or.inl h
      · exact Or.inl h
    | createSubmission d =>
      simp only [answer] at h
      split at h
      · exact Or.inl h
      · exact Or.inl h
    | _ => exact Or.inl h

end Api
