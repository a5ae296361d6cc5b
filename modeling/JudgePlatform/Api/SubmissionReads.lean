/-
# Reading submissions

`getSubmissionById` and `getMySubmissions` of the submissions service.  The first
reads through the Redis cache, whose entries the judge writes too, checks that the
requester may see the submission, and takes from a student's copy what belongs to
hidden test cases: `sanitizeSubmissionForStudent`, once over the details in the
output text and once over those of the test result.
-/
import JudgePlatform.Api.Submissions

namespace Api

open JsValue

/-- The members of an object. -/
abbrev Members := List (String × JsValue)

/-- The properties of a submission, be it a document or a parsed cache entry. -/
abbrev Properties := String → Option JsValue

/-! ## Details -/

/-- The index of the test case that a detail is about: from the number that it
carries, else its place. -/
def testIndex (detail : Members) (idx : ℕ) : ℤ :=
  match firstOf detail ["test", "Test"] with
  | some (num x) =>
    match integerOf x with
    | some n => n - 1
    | none => idx
  | _ => idx

def testCaseAt (testCases : List TestCase) (i : ℤ) : Option TestCase :=
  if 0 ≤ i then testCases[i.toNat]? else none

/-- Whether a detail is hidden: a detail without a test case is not. -/
def isHidden (testCases : List TestCase) (detail : Members) (idx : ℕ) : Bool :=
  (testCaseAt testCases (testIndex detail idx)).any fun tc => !isSampleTestCase tc

def passedOf (detail : Members) : Option JsValue :=
  orElse (firstOf detail ["passed", "ok", "Passed", "Ok"]) (some (bool false))

/-- The detail of a sample test case, under the names of the frontend. -/
def shownDetail (detail : Members) : Members :=
  setMembers detail
    [("inputs", firstOf detail ["inputs", "input", "Input"]),
      ("expected", firstOf detail ["expected", "Expected"]),
      ("output", firstOf detail ["output", "Output"]),
      ("passed", passedOf detail),
      ("ok", passedOf detail),
      ("stdout", firstOf detail ["stdout", "Stdout"]),
      ("stderr", firstOf detail ["stderr", "Stderr"]),
      ("traceback", firstOf detail ["traceback", "Traceback"]),
      ("timeMs", firstOf detail ["timeMs", "TimeMs"])]

/-- The console of a detail, shown for practice problems. -/
def consoleOf (detail : Members) : List (String × Option JsValue) :=
  [("stdout", firstOf detail ["stdout", "Stdout"]),
    ("stderr", firstOf detail ["stderr", "Stderr"]),
    ("traceback", firstOf detail ["traceback", "Traceback"])]

/-- The detail of a hidden test case. -/
def hiddenDetail (isAssessment : Bool) (detail : Members) : Members :=
  setMembers []
    ([("test", firstOf detail ["test", "Test"]),
      ("passed", passedOf detail),
      ("ok", passedOf detail),
      ("isHidden", some (bool true)),
      ("timeMs", firstOf detail ["timeMs", "TimeMs"])] ++
      if isAssessment then [] else consoleOf detail)

/-- One detail; reading a property of `null` throws. -/
def sanitizeDetail (testCases : List TestCase) (isAssessment : Bool) (idx : ℕ) :
    JsValue → Option JsValue
  | null => none
  | v =>
    let detail := spread v
    some (obj (if isHidden testCases detail idx then hiddenDetail isAssessment detail
      else shownDetail detail))

/-- `sanitizeResultDetails`, from a place in the list on. -/
def sanitizeFrom (testCases : List TestCase) (isAssessment : Bool) :
    ℕ → List JsValue → Option (List JsValue)
  | _, [] => some []
  | idx, d :: ds => do
    let d' ← sanitizeDetail testCases isAssessment idx d
    let ds' ← sanitizeFrom testCases isAssessment (idx + 1) ds
    return d' :: ds'

def sanitizeResultDetails (details : List JsValue) (testCases : List TestCase)
    (isAssessment : Bool) : Option (List JsValue) :=
  sanitizeFrom testCases isAssessment 0 details

/-! ## Submissions -/

/-- `parseOutputJSON`; what is no text, or not JSON, counts as null. -/
def parseOutputJSON : Option JsValue → Option JsValue
  | some (str text) => JsValue.parse text
  | _ => none

/-- An object with the array of its details. -/
def detailsOf : Option JsValue → Option (Members × List JsValue)
  | some (obj ms) =>
    match lookup ms "details" with
    | some (arr ds) => some (ms, ds)
    | _ => none
  | _ => none

def withDetails (ms : Members) (ds : List JsValue) : JsValue :=
  obj (setMember ms "details" (some (arr ds)))

/-- The details of an object sanitized, and `other` where it has none. -/
def sanitizeWithin (testCases : List TestCase) (isAssessment : Bool) (v : Option JsValue)
    (write : JsValue → JsValue) (other : Option JsValue) : Option (Option JsValue) :=
  match detailsOf v with
  | some (ms, ds) =>
    (sanitizeResultDetails ds testCases isAssessment).map fun ds' => some (write (withDetails ms ds'))
  | none => some other

/-- What a student sees of a submission; `none` is a `TypeError`. -/
def sanitizeSubmissionForStudent (submission : Properties) (problem : Option Problem) :
    Option Properties :=
  match problem with
  | none => some submission
  | some problem => do
    let isAssessment := truthy (submission "assessmentId")
    let output ← sanitizeWithin problem.testCases isAssessment
      (parseOutputJSON (submission "output")) (fun v => str (stringify v)) (submission "output")
    let testResult ← sanitizeWithin problem.testCases isAssessment
      (submission "testResult") id (submission "testResult")
    return Function.update (Function.update submission "output" output) "testResult" testResult

/-! ## Access -/

/-- The requester, as the token names them. -/
structure Requester where
  userId : Option ObjectId
  role : Role
  collegeId : Option ObjectId

def isPrivilegedRole (role : Role) : Bool :=
  role = .admin || role = .faculty || role = .superadmin

/-- `String(x)` of an identifier. -/
def idText : Option JsValue → String
  | some (str s) => s
  | some v => stringify v
  | none => "undefined"

def canAccessSubmission (submission : Properties) (auth : Requester) : Bool :=
  if orString auth.userId "" = "" then false
  else
    match auth.role with
    | .superadmin => true
    | .student => idText (submission "userId") = idText (auth.userId.map str)
    | _ =>
      -- a submission without a college is a legacy one
      if truthy (submission "collegeId") then
        idText (submission "collegeId") = idText (auth.collegeId.map str)
      else true

/-! ## The reads -/

def SubmissionStatus.text : SubmissionStatus → String
  | .pending => "Pending"
  | .running => "Running"
  | .success => "Success"
  | .fail => "Fail"
  | .error => "Error"

/-- The named properties of a value. -/
def propertiesOf : JsValue → Properties
  | obj ms => lookup ms
  | _ => fun _ => none

/-- A member that is there when it has a value. -/
def optional (k : String) (v : Option JsValue) : Members := (v.map fun v => (k, v)).toList

/-- The members of a document. -/
def Submission.toObject (d : Submission) : Members :=
  [("_id", str d.id), ("problemId", str d.problemId), ("userId", str d.userId)] ++
    optional "assessmentId" (d.assessmentId.map str) ++
    optional "attemptId" (d.attemptId.map str) ++
    optional "collegeId" (d.collegeId.map str) ++
    [("score", num d.score), ("code", str d.code), ("language", str d.language),
      ("status", str d.status.text)] ++
    optional "output" (d.output.map str) ++
    optional "testResult" d.testResult ++
    optional "externalStudentId" (d.externalStudentId.map str) ++
    optional "externalAssessmentId" (d.externalAssessmentId.map str)

def Submission.properties (d : Submission) : Properties := lookup d.toObject

theorem lookup_optional (i k : String) (v : Option JsValue) :
    lookup (optional i v) k = if i = k then v else none := by
  unfold optional
  cases v with
  | none => exact (ite_self _).symm
  | some v => exact lookup_cons (i, v) [] k

@[simp] theorem properties_output (d : Submission) :
    d.properties "output" = d.output.map str := by
  simp [Submission.properties, Submission.toObject, lookup_append, lookup_cons, lookup_optional]

@[simp] theorem properties_testResult (d : Submission) :
    d.properties "testResult" = d.testResult := by
  simp [Submission.properties, Submission.toObject, lookup_append, lookup_cons, lookup_optional]

@[simp] theorem properties_problemId (d : Submission) :
    d.properties "problemId" = some (str d.problemId) := by
  simp [Submission.properties, Submission.toObject, lookup_cons]

@[simp] theorem properties_userId (d : Submission) :
    d.properties "userId" = some (str d.userId) := by
  simp [Submission.properties, Submission.toObject, lookup_cons]

@[simp] theorem properties_assessmentId (d : Submission) :
    d.properties "assessmentId" = d.assessmentId.map str := by
  simp [Submission.properties, Submission.toObject, lookup_append, lookup_cons, lookup_optional]

@[simp] theorem properties_collegeId (d : Submission) :
    d.properties "collegeId" = d.collegeId.map str := by
  simp [Submission.properties, Submission.toObject, lookup_append, lookup_cons, lookup_optional]

@[simp] theorem properties_status (d : Submission) :
    d.properties "status" = some (str d.status.text) := by
  simp [Submission.properties, Submission.toObject, lookup_append, lookup_cons, lookup_optional]

/-- The output and the test result are their own properties. -/
theorem properties_with (d : Submission) (output : Option String) (testResult : Option JsValue) :
    Submission.properties { d with output, testResult } =
      Function.update (Function.update d.properties "output" (output.map str))
        "testResult" testResult := by
  funext k
  by_cases hr : k = "testResult"
  · subst hr
    rw [Function.update_self, properties_testResult]
  rw [Function.update_of_ne hr]
  by_cases ho : k = "output"
  · subst ho
    rw [Function.update_self, properties_output]
  rw [Function.update_of_ne ho]
  unfold Submission.properties Submission.toObject
  simp only [lookup_append, lookup_optional, if_neg (Ne.symm ho), if_neg (Ne.symm hr)]

def cacheKey (id : ObjectId) : String := "submission:" ++ id

def getCacheJSON (key : String) : Task (Option JsValue) := do
  let raw : Option String ← ask (.getCache key)
  match raw with
  | none => return none
  | some text => if text = "" then return none else demand ((JsValue.parse text).map some) .syntaxError

/-- The problem that a property names. -/
def findProblemOf : Option JsValue → Task (Option Problem)
  | some (str id) => ask (.findProblem id)
  | _ => pure none

inductive SubmissionRead where
  | notFound
  | forbidden
  | found (cached : Bool) (submission : Properties)

/-- The answer to a requester who may see the submission. -/
def showSubmission (cached : Bool) (submission : Properties) (auth : Requester) :
    Task SubmissionRead := do
  if isPrivilegedRole auth.role then return .found cached submission
  else
    let problem ← findProblemOf (submission "problemId")
    let shown ← demand (sanitizeSubmissionForStudent submission problem) .typeError
    return .found cached shown

/-- `getSubmissionById` after a cache miss. -/
def readStored (id : ObjectId) (auth : Requester) : Task SubmissionRead := do
  let found : Option Submission ← ask (.findSubmission id)
  match found with
  | none => return .notFound
  | some submission =>
    if canAccessSubmission submission.properties auth then
      if submission.status = .success ∨ submission.status = .fail then
        ask (.setCache (cacheKey id) (stringify (obj submission.toObject)))
        showSubmission false submission.properties auth
      else showSubmission false submission.properties auth
    else return .forbidden

/-- `getSubmissionById`, with what the cache held. -/
def readThrough (id : ObjectId) (auth : Requester) : Option JsValue → Task SubmissionRead
  | some v =>
    if canAccessSubmission (propertiesOf v) auth then showSubmission true (propertiesOf v) auth
    else return .forbidden
  | none => readStored id auth

def getSubmissionById (id : ObjectId) (auth : Requester) : Task SubmissionRead := do
  let cached ← getCacheJSON (cacheKey id)
  readThrough id auth (cached.filter fun v => truthy (some v))

/-- A submission in a student's list, with the title of its problem. -/
def listedSubmission (d : Submission) (problem : Option Problem) : JsValue :=
  obj ([("_id", str d.id),
      ("problemId", match problem with
        | some p => obj [("_id", str p.id), ("title", str p.title)]
        | none => null)] ++
    optional "assessmentId" (d.assessmentId.map str) ++
    optional "attemptId" (d.attemptId.map str) ++
    [("score", num d.score), ("language", str d.language), ("status", str d.status.text)] ++
    optional "output" (d.output.map str) ++
    optional "testResult" d.testResult)

/-- `populate("problemId", "title")`. -/
def populateTitles : List Submission → Task (List JsValue)
  | [] => return []
  | d :: ds => do
    let problem ← ask (.findProblem d.problemId)
    let rest ← populateTitles ds
    return listedSubmission d problem :: rest

/-- `page` and `limit` are the numbers of the query, 1 and 50 where it has none. -/
def getMySubmissions (userId : ObjectId) (page limit : ℤ) : Task (List JsValue) := do
  let page := max 1 page
  let limit := min 100 (max 1 limit)
  let submissions ← ask (.findUserSubmissions userId ((page - 1) * limit).toNat limit.toNat)
  populateTitles submissions

/-! ## What the reads answer -/

/-- Serve every request that a read makes. -/
abbrev serveAll : Store → (r : Request) → Except ServiceError (Reply r) × Store := serve {}

/-- What `getCacheJSON` makes of an entry. -/
def parsedEntry : Option String → Except ServiceError (Option JsValue)
  | none => .ok none
  | some text =>
    if text = "" then .ok none
    else
      match JsValue.parse text with
      | some v => .ok (some v)
      | none => .error .syntaxError

/-- The submission that a read is about, and whether it comes from the cache. -/
def Store.found (s : Store) (id : ObjectId) : Except ServiceError (Option (Bool × Properties)) :=
  match parsedEntry (s.cached (cacheKey id)) with
  | .error e => .error e
  | .ok cached =>
    match cached.filter fun v => truthy (some v) with
    | some v => .ok (some (true, propertiesOf v))
    | none => .ok ((s.submission id).map fun d => (false, d.properties))

def Store.problemOf (s : Store) : Option JsValue → Option Problem
  | some (str id) => s.problem id
  | _ => none

/-- What a requester is shown who may see the submission. -/
def shown (auth : Requester) (problem : Option Problem) (cached : Bool) (f : Properties) :
    Except ServiceError SubmissionRead :=
  if isPrivilegedRole auth.role then .ok (.found cached f)
  else
    match sanitizeSubmissionForStudent f problem with
    | some g => .ok (.found cached g)
    | none => .error .typeError

/-- What `getSubmissionById` answers in a state. -/
def Store.read (s : Store) (id : ObjectId) (auth : Requester) :
    Except ServiceError SubmissionRead :=
  match s.found id with
  | .error e => .error e
  | .ok none => .ok .notFound
  | .ok (some (cached, f)) =>
    if canAccessSubmission f auth then shown auth (s.problemOf (f "problemId")) cached f
    else .ok .forbidden

theorem eval_getCacheJSON (s : Store) (key : String) :
    (getCacheJSON key).eval serveAll s = (parsedEntry (s.cached key), s) := by
  show Program.eval serveAll s (match s.cached key with
    | none => return none
    | some text =>
      if text = "" then return none
      else demand ((JsValue.parse text).map some) .syntaxError) = _
  cases s.cached key with
  | none => rfl
  | some text =>
    by_cases ht : text = ""
    · simp only [parsedEntry, ht, ↓reduceIte]
      rfl
    · simp only [parsedEntry, ht, ↓reduceIte]
      cases JsValue.parse text with
      | none => rfl
      | some v => rfl

theorem eval_findProblemOf (s : Store) (v : Option JsValue) :
    (findProblemOf v).eval serveAll s = (.ok (s.problemOf v), s) := by
  cases v with
  | none => rfl
  | some v => cases v <;> rfl

theorem eval_showSubmission (s : Store) (cached : Bool) (f : Properties) (auth : Requester) :
    (showSubmission cached f auth).eval serveAll s =
      (shown auth (s.problemOf (f "problemId")) cached f, s) := by
  unfold showSubmission shown
  split
  · rfl
  · rw [Program.eval_bind, eval_findProblemOf]
    cases hg : sanitizeSubmissionForStudent f (s.problemOf (f "problemId")) with
    | none =>
      simp only [hg]
      rfl
    | some g =>
      simp only [hg]
      rfl

/-- **What `getSubmissionById` answers**: a read of the cache or else of the store. -/
theorem eval_getSubmissionById (s : Store) (id : ObjectId) (auth : Requester) :
    ((getSubmissionById id auth).eval serveAll s).1 = s.read id auth := by
  unfold getSubmissionById Store.read Store.found
  rw [Program.eval_bind, eval_getCacheJSON]
  cases parsedEntry (s.cached (cacheKey id)) with
  | error e => rfl
  | ok cached =>
    show ((readThrough id auth (cached.filter fun v => truthy (some v))).eval serveAll s).1 = _
    cases hfilter : cached.filter fun v => truthy (some v) with
    | some v =>
      simp only [readThrough, hfilter]
      split
      · rw [eval_showSubmission]
      · rfl
    | none =>
      simp only [readThrough, hfilter]
      show (Program.eval serveAll s (match s.submission id with
        | none => return SubmissionRead.notFound
        | some submission => _)).1 = _
      cases s.submission id with
      | none => rfl
      | some d =>
        simp only [Option.map_some]
        split
        · split
          · show ((showSubmission false d.properties auth).eval serveAll (s.setCache _ _)).1 = _
            rw [eval_showSubmission]
            rfl
          · rw [eval_showSubmission]
        · rfl

theorem eval_populateTitles (s : Store) (ds : List Submission) :
    (populateTitles ds).eval serveAll s =
      (.ok (ds.map fun d => listedSubmission d (s.problem d.problemId)), s) := by
  induction ds with
  | nil => rfl
  | cons d ds ih =>
    show Program.eval serveAll s (populateTitles ds >>= fun rest =>
      pure (listedSubmission d (s.problem d.problemId) :: rest)) = _
    rw [Program.eval_bind, ih]
    rfl

/-- The page of submissions that `getMySubmissions` lists. -/
def Store.myPage (s : Store) (userId : ObjectId) (page limit : ℤ) : List Submission :=
  ((s.submissions.reverse.filter (·.userId = userId)).drop
    ((max 1 page - 1) * min 100 (max 1 limit)).toNat).take (min 100 (max 1 limit)).toNat

theorem eval_getMySubmissions (s : Store) (userId : ObjectId) (page limit : ℤ) :
    ((getMySubmissions userId page limit).eval serveAll s).1 =
      .ok ((s.myPage userId page limit).map fun d =>
        listedSubmission d (s.problem d.problemId)) := by
  show ((populateTitles (s.myPage userId page limit)).eval serveAll s).1 = _
  rw [eval_populateTitles]

end Api
