/-
# Verdicts of the judge

The writes that answer a submission: `processAndStoreResults` from the update of the
submission on, and `markSubmissionExecutionFailed`.  A write that fails is logged
and the next one is made all the same.  The times of the cached record are left out.
-/
import JudgePlatform.Api.SubmissionReads
import JudgePlatform.Judge.StoredResults

namespace Api

open GoRecord

/-- `ObjectIDFromHex` succeeds. -/
def isObjectId (id : String) : Bool :=
  id.toList.length = 24 && id.toList.all fun c => (Json.hexDigit c).isSome

/-- `primitive.NilObjectID`. -/
def nilObjectId : ObjectId := "000000000000000000000000"

/-- The outcome of a submission, with what the judge uses of the message. -/
structure Verdict where
  submissionId : String
  problemId : String
  language : String
  code : String
  collegeId : String
  outcome : Judge.Outcome

/-- The error of a request is logged. -/
def logged {α : Type} (t : Task α) : Task (Option α) :=
  tryCatch (some <$> t) fun _ => pure none

namespace Verdict

/-- A member that an empty text leaves out. -/
def unlessEmpty (k s : String) : List (String × Json) := if s = "" then [] else [(k, .str s)]

/-- The members of the record that the judge caches. -/
def members (v : Verdict) (userId : ObjectId) (testResult : Option Json) : List (String × Json) :=
  ("_id", .str v.submissionId) ::
    ("problemId", .str (if isObjectId v.problemId then v.problemId else nilObjectId)) ::
    ("userId", .str userId) :: ("language", .str v.language) ::
    (unlessEmpty "code" v.code ++ ("status", .str v.outcome.status.text) ::
      (unlessEmpty "output" v.outcome.output ++ (testResult.map fun j => ("testResult", j)).toList))

/-- `json.Marshal(updatedSubmission)`. -/
def entry (v : Verdict) (userId : ObjectId) : Except String Json :=
  match v.outcome.testResult with
  | some sr => sr.toJson.map fun j => .obj (v.members userId (some j))
  | none => .ok (.obj (v.members userId none))

/-- The metering of an executed submission. -/
def usageEvent (v : Verdict) (userId : Option ObjectId) : UsageEvent where
  submissionId := v.submissionId
  userId := userId
  language := v.language
  status := v.outcome.status
  elapsedMs := (v.outcome.testResult.map Judge.SubmissionResult.elapsedMs).getD 0
  collegeId := if isObjectId v.collegeId then some v.collegeId else none

end Verdict

/-- `json.Marshal` as a text. -/
def goText (j : Json) : String := String.ofList (Json.print Json.goEscape j)

/-- The rest of `processAndStoreResults` after its update of the submission. -/
def publishVerdict (v : Verdict) : Task Unit := do
  if isObjectId v.problemId then
    let _ ← logged (ask (.countVerdict v.problemId (v.outcome.status = .success)))
    pure ()
  let original : Option (Option Submission) ← logged (ask (.findSubmission v.submissionId))
  let userId := original.join.map Submission.userId
  let _ ← logged (ask (.recordUsage (v.usageEvent userId)))
  match v.entry (userId.getD nilObjectId) with
  | .ok j =>
    let _ ← logged (ask (.setCache (cacheKey v.submissionId) (goText j)))
    pure ()
  | .error _ => pure ()

/-- `processAndStoreResults`, with what it stores of the execution; `bson` is what the
drivers make of a value whose type is only known at run time. -/
def storeVerdict (bson : GoValue → JsValue) (v : Verdict) : Task Unit := do
  if isObjectId v.submissionId then
    let _ ← logged (ask (.storeResult v.submissionId v.outcome.status v.outcome.output
      (some (Judge.resultDocument bson v.outcome.testResult))))
    publishVerdict v
  else pure ()

def markSubmissionExecutionFailed (submissionId reason : String) : Task Unit := do
  if isObjectId submissionId then
    let _ ← logged (ask (.storeFailure submissionId reason))
    pure ()
  else pure ()

end Api
