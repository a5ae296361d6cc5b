/-
# Proctoring an assessment

The functions of the assessments service that watch over an attempt, keep its drafts or show
it to others (`logAntiCheatingEvent`, `saveDraft`, `lockAssessment`, `unlockAssessment`,
`listAssessmentAttempts`, `getAttemptSubmissions`), offered beside the operations on attempts
and behind the roles that the routes admit.

* `Monitor` : the fields of an attempt that only these functions write.
* `Operation.program` : the handler of a route, from its roles to its service.
-/
import JudgePlatform.Api.AttemptRuns
import JudgePlatform.Library.Expansion

namespace Proctoring

open Api (ObjectId Date User Role Attempt Assessment Submission FoundAttempt ServiceError
  collegeScopeFor inScope updateDoc)

/-! ## Documents -/

inductive EventType where
  | tabSwitch
  | copy
  | paste
  | fullscreenExit
  | returned
  deriving DecidableEq

/-- The cases of the `switch`. -/
def eventNamed (name : String) : Option EventType :=
  if name = "TAB_SWITCH" then some .tabSwitch
  else if name = "COPY" then some .copy
  else if name = "PASTE" then some .paste
  else if name = "FULLSCREEN_EXIT" then some .fullscreenExit
  else if name = "RETURN" then some .returned
  else none

def eventOf (eventType : JsValue) : Option EventType :=
  match eventType with
  | .str name => eventNamed name
  | _ => none

/-- The fields of an attempt that proctoring writes.  The events are those that it pushed to
the timeline, which holds them among the events of `Attempt.timeline`. -/
structure Monitor where
  codeDrafts : JsValue
  tabSwitchCount : ℕ
  copyCount : ℕ
  pasteCount : ℕ
  fullscreenExitCount : ℕ
  events : List (EventType × Date)

namespace Monitor

/-- The `$inc` of an event. -/
def inc (m : Monitor) : EventType → Monitor
  | .tabSwitch => { m with tabSwitchCount := m.tabSwitchCount + 1 }
  | .copy => { m with copyCount := m.copyCount + 1 }
  | .paste => { m with pasteCount := m.pasteCount + 1 }
  | .fullscreenExit => { m with fullscreenExitCount := m.fullscreenExitCount + 1 }
  | .returned => m

/-- The `$push` of an event. -/
def push (m : Monitor) (e : EventType) (timestamp : Date) : Monitor :=
  { m with events := m.events ++ [(e, timestamp)] }

/-- An update leaves out what is undefined. -/
def setDrafts (m : Monitor) (codeDrafts : Option JsValue) : Monitor :=
  { m with codeDrafts := codeDrafts.getD m.codeDrafts }

end Monitor

structure Store where
  base : Api.Store
  monitors : ObjectId → Monitor

/-- An attempt with its own and its proctoring fields. -/
structure Watched where
  doc : Attempt
  monitor : Monitor

/-- A watched attempt with its populated references. -/
structure FoundWatched where
  found : FoundAttempt
  monitor : Monitor

def FoundWatched.record (w : FoundWatched) : Watched := ⟨w.found.doc, w.monitor⟩

/-! ## Requests -/

inductive Request where
  | base (r : Api.Request)
  | findWatched (id : ObjectId) (scope : Option ObjectId)
  /-- the attempts of an assessment, the latest first -/
  | listWatched (assessmentId : ObjectId) (scope : Option ObjectId) (skip limit : ℕ)
  /-- `$push` and `$inc` in one update -/
  | pushEvent (id : ObjectId) (e : EventType) (timestamp : Date)
  | setDrafts (id : ObjectId) (codeDrafts : Option JsValue)
  | setLocked (id : ObjectId) (scope : Option ObjectId) (locked : Bool)
  /-- the submissions to an attempt, the latest first -/
  | findSubmissionsOf (attemptId : ObjectId) (skip limit : ℕ)

def Reply : Request → Type
  | .base r => Api.Reply r
  | .findWatched _ _ => Option FoundWatched
  | .listWatched _ _ _ _ => List FoundWatched
  | .pushEvent _ _ _ => Option Watched
  | .setDrafts _ _ => Option Watched
  | .setLocked _ _ _ => Option Assessment
  | .findSubmissionsOf _ _ _ => List Submission

abbrev Task (α : Type) := Program Reply ServiceError α

abbrev ask (r : Request) : Task (Reply r) := Program.call r

namespace Store

def find (s : Store) (a : Attempt) : FoundWatched := ⟨s.base.populateAttempt a, s.monitors a.id⟩

/-- `findOneAndUpdate` of the proctoring fields. -/
def update (s : Store) (id : ObjectId) (f : Monitor → Monitor) : Option Watched × Store :=
  match s.base.attempt id with
  | some a =>
    let monitor := f (s.monitors id)
    (some ⟨a, monitor⟩, { s with monitors := Function.update s.monitors id monitor })
  | none => (none, s)

/-- `findOneAndUpdate` of the lock, in the scope of the user. -/
def setLocked (s : Store) (id : ObjectId) (scope : Option ObjectId) (locked : Bool) :
    Option Assessment × Store :=
  match (s.base.assessment id).filter fun a => inScope scope a.collegeId with
  | some a =>
    (some { a with locked }, { s with
      base := { s.base with
        assessments := updateDoc Assessment.id s.base.assessments id fun a =>
          { a with locked } } })
  | none => (none, s)

def listed (s : Store) (assessmentId : ObjectId) (scope : Option ObjectId) : List Attempt :=
  (s.base.attempts.filter fun a => a.assessmentId = assessmentId ∧ inScope scope a.collegeId)
    |>.mergeSort fun a b => b.startedAt.le a.startedAt

end Store

/-- A request is refused without effect, or carried out. -/
def carryOut {α : Type} (c : Api.Choice) (s : Store) (done : α × Store) :
    Except ServiceError α × Store :=
  if c.refused then (.error .unavailable, s) else (.ok done.1, done.2)

def serve (c : Api.Choice) (s : Store) : (r : Request) → Except ServiceError (Reply r) × Store
  | .base r => ((Api.serve c s.base r).1, { s with base := (Api.serve c s.base r).2 })
  | .findWatched id scope =>
    carryOut c s (((s.base.attempt id).filter fun a => inScope scope a.collegeId).map s.find, s)
  | .listWatched assessmentId scope skip limit =>
    carryOut c s ((((s.listed assessmentId scope).drop skip).take limit).map s.find, s)
  | .pushEvent id e timestamp => carryOut c s (s.update id fun m => (m.push e timestamp).inc e)
  | .setDrafts id codeDrafts => carryOut c s (s.update id fun m => m.setDrafts codeDrafts)
  | .setLocked id scope locked => carryOut c s (s.setLocked id scope locked)
  | .findSubmissionsOf attemptId skip limit =>
    carryOut c s
      (((s.base.submissions.reverse.filter fun d => d.attemptId = some attemptId).drop skip).take
        limit, s)

/-! ## The functions -/

section Checks

variable {α : Type}

/-- The value of an option, or an error. -/
def demand (x : Option α) (e : ServiceError) : Task α :=
  match x with
  | some a => pure a
  | none => throw e

/-- Go on only under a condition. -/
def require (c : Prop) [Decidable c] (e : ServiceError) : Task Unit :=
  if c then pure () else throw e

end Checks

def logAntiCheatingEvent (attemptId : ObjectId) (eventType : JsValue) (user : User) :
    Task (Option Watched) := do
  let attempt ← demand (← ask (.findWatched attemptId (collegeScopeFor user)))
    (.http 404 "Attempt not found")
  let studentId ← demand attempt.found.student .typeError
  require (studentId = user.id) (.http 403 "Forbidden")
  if attempt.found.doc.status ≠ .active then return some attempt.record
  else
    let timestamp ← ask (.base .now)
    let e ← demand (eventOf eventType) (.http 400 "Invalid event type")
    ask (.pushEvent attemptId e timestamp)

def saveDraft (attemptId : ObjectId) (codeDrafts : Option JsValue) (user : User) :
    Task (Option Watched) := do
  let attempt ← demand (← ask (.findWatched attemptId (collegeScopeFor user)))
    (.http 404 "Attempt not found")
  require (attempt.found.doc.status = .active)
    (.http 409 ("Attempt is " ++ attempt.found.doc.status.lower ++ " and cannot save draft"))
  let studentId ← demand attempt.found.student .typeError
  require (user.role = .student → studentId = user.id) (.http 403 "Forbidden")
  ask (.setDrafts attemptId codeDrafts)

/-- `lockAssessment` and `unlockAssessment`. -/
def setLock (locked : Bool) (assessmentId : ObjectId) (user : User) : Task Assessment := do
  require (user.role ≠ .student) (.http 403 "Forbidden")
  demand (← ask (.setLocked assessmentId (collegeScopeFor user) locked))
    (.http 404 "Assessment not found")

def lockAssessment : ObjectId → User → Task Assessment := setLock true

def unlockAssessment : ObjectId → User → Task Assessment := setLock false

def listAssessmentAttempts (assessmentId : ObjectId) (user : User) (skip limit : ℕ) :
    Task (List FoundWatched) := do
  require (user.role ≠ .student) (.http 403 "Forbidden")
  ask (.listWatched assessmentId (collegeScopeFor user) skip limit)

def getAttemptSubmissions (attemptId : ObjectId) (user : User) (skip limit : ℕ) :
    Task (List Submission) := do
  let attempt ← demand (← ask (.findWatched attemptId (collegeScopeFor user)))
    (.http 404 "Attempt not found")
  let studentId ← demand attempt.found.student .typeError
  require (user.role = .student → studentId = user.id) (.http 403 "Forbidden")
  ask (.findSubmissionsOf attemptId skip limit)

/-! ## The routes -/

inductive Operation where
  | attempt (op : Api.Operation)
  | logAntiCheatingEvent (attemptId : ObjectId) (eventType : JsValue) (user : User)
  | saveDraft (attemptId : ObjectId) (codeDrafts : Option JsValue) (user : User)
  | lockAssessment (assessmentId : ObjectId) (user : User)
  | unlockAssessment (assessmentId : ObjectId) (user : User)
  | listAssessmentAttempts (assessmentId : ObjectId) (user : User) (skip limit : ℕ)
  | getAttemptSubmissions (attemptId : ObjectId) (user : User) (skip limit : ℕ)

inductive Response where
  | attempt (x : Api.Response)
  | watched (a : Option Watched)
  | assessment (a : Assessment)
  | attempts (as : List FoundWatched)
  | submissions (ds : List Submission)

namespace Operation

/-- The user whose token the route has verified; `submitSolution` is handed the identifiers. -/
def user : Operation → Option User
  | attempt (.submitAssessment _ user) => some user
  | attempt (.getAssessmentAttemptById _ user) => some user
  | attempt (.addGraceTime _ _ user) => some user
  | attempt (.raiseChallenge _ _ user) => some user
  | attempt (.resolveChallenge _ _ _ user) => some user
  | attempt (.submitSolution _) => none
  | attempt (.wait _) => none
  | logAntiCheatingEvent _ _ user => some user
  | saveDraft _ _ user => some user
  | lockAssessment _ user => some user
  | unlockAssessment _ user => some user
  | listAssessmentAttempts _ user _ _ => some user
  | getAttemptSubmissions _ user _ _ => some user

def everyone : List Role := [.student, .admin, .faculty, .superadmin]

def staff : List Role := [.admin, .faculty, .superadmin]

/-- The roles that the route of an operation admits. -/
def roles : Operation → List Role
  | attempt (.addGraceTime _ _ _) => staff
  | attempt (.raiseChallenge _ _ _) => [.student]
  | attempt (.resolveChallenge _ _ _ _) => staff
  | attempt _ => everyone
  | logAntiCheatingEvent _ _ _ => [.student]
  | saveDraft _ _ _ => everyone
  | lockAssessment _ _ => staff
  | unlockAssessment _ _ => staff
  | listAssessmentAttempts _ _ _ _ => staff
  | getAttemptSubmissions _ _ _ _ => everyone

def handler : Operation → Task Response
  | attempt op => Response.attempt <$> op.program.expand fun r => ask (.base r)
  | logAntiCheatingEvent id eventType user =>
    Response.watched <$> Proctoring.logAntiCheatingEvent id eventType user
  | saveDraft id codeDrafts user => Response.watched <$> Proctoring.saveDraft id codeDrafts user
  | lockAssessment id user => Response.assessment <$> Proctoring.lockAssessment id user
  | unlockAssessment id user => Response.assessment <$> Proctoring.unlockAssessment id user
  | listAssessmentAttempts id user skip limit =>
    Response.attempts <$> Proctoring.listAssessmentAttempts id user skip limit
  | getAttemptSubmissions id user skip limit =>
    Response.submissions <$> Proctoring.getAttemptSubmissions id user skip limit

/-- `authorizeRoles` before the handler. -/
def program (op : Operation) : Task Response := do
  require (∀ user ∈ op.user, user.role ∈ op.roles) (.http 403 "Forbidden")
  op.handler

end Operation

/-! ## What a call sees -/

/-- What an answer shows: an attempt that was looked up under an identifier in a scope, an
attempt as an update returned it, a list of attempts or a list of submissions. -/
inductive Sighting where
  | found (id : ObjectId) (scope : Option ObjectId) (a : FoundAttempt)
  | updated (id : ObjectId) (a : Attempt)
  | listed (scope : Option ObjectId) (as : List FoundWatched)
  | submissions (attemptId : ObjectId) (ds : List Submission)

abbrev View := List Sighting

/-- What an answer to an operation on attempts shows. -/
def sightedBase : (r : Api.Request) → Api.Reply r → List Sighting
  | .findAttempt id scope, (some a : Option FoundAttempt) => [.found id scope a]
  | .updateAttempt id _, (some a : Option Attempt) => [.updated id a]
  | _, _ => []

def sighted : (r : Request) → Reply r → List Sighting
  | .base r, x => sightedBase r x
  | .findWatched id scope, (some w : Option FoundWatched) => [.found id scope w.found]
  | .pushEvent id _ _, (some w : Option Watched) => [.updated id w.doc]
  | .setDrafts id _, (some w : Option Watched) => [.updated id w.doc]
  | .listWatched _ scope _ _, as => [.listed scope as]
  | .findSubmissionsOf attemptId _ _, ds => [.submissions attemptId ds]
  | _, _ => []

def lookBase (v : View) (r : Api.Request) (x : Api.Reply r) : View := v ++ sightedBase r x

def look (v : View) (r : Request) (x : Reply r) : View := v ++ sighted r x

def service : Service Operation Store Api.Choice View Reply ServiceError Response where
  program := Operation.program
  serve := serve
  blank := []
  look := look

abbrev Config := Service.Config Operation Store View Reply ServiceError Response

/-- The interleavings of calls, from a store. -/
def system (store : Store) := service.system fun s => s = store

end Proctoring
