/-
# The problems of the database

Problems are created, changed and deleted by staff, and synchronized by a partner service.  The
calls run side by side; every request of theirs may be refused.

* `Problem`, `Changes` : a document, and what one write sets of it.
* `castProblem` : the casts of the schema (`models/Problem.mjs`).
* `createProblem`, `updateProblem`, `deleteProblem`, `syncProblem` : the operations.
* `service` : these operations side by side.
-/
import JudgePlatform.Api.ProblemPayloads
import JudgePlatform.Api.Verdicts
import JudgePlatform.Judge.RunHandler
import JudgePlatform.Library.Knowledge

namespace Problems

open JsValue
open Api (Members ObjectId)
open Judge (Parameter functionProblem stdinProblem)

/-! ## Documents -/

structure TestCase where
  inputs : List JsValue
  expected : Option JsValue
  isSample : Bool
  isHidden : Bool

structure CompareConfig where
  mode : String := "EXACT"
  floatTolerance : Binary64 := .zero
  orderInsensitive : Bool := false
  requireDeepCopy : Bool := false

structure Problem where
  id : ObjectId
  externalId : Option String := none
  title : String := ""
  description : String := ""
  difficulty : String := ""
  problemType : String := functionProblem
  functionName : Option String := none
  parameters : List Parameter := []
  returnType : Option String := none
  timeLimitMs : Binary64 := .ofInt 2000
  memoryLimitMb : Binary64 := .ofInt 256
  compareConfig : CompareConfig := {}
  testCases : List TestCase := []
  testsJSON : Option String := none
  isPremium : Bool := false

/-- What one write sets; a field left `none` is untouched. -/
structure Changes where
  externalId : Option String := none
  title : Option String := none
  description : Option String := none
  difficulty : Option String := none
  problemType : Option String := none
  functionName : Option String := none
  parameters : Option (List Parameter) := none
  returnType : Option String := none
  timeLimitMs : Option Binary64 := none
  memoryLimitMb : Option Binary64 := none
  compareConfig : Option CompareConfig := none
  testCases : Option (List TestCase) := none
  testsJSON : Option String := none
  isPremium : Option Bool := none

def Changes.apply (c : Changes) (d : Problem) : Problem where
  id := d.id
  externalId := c.externalId.or d.externalId
  title := c.title.getD d.title
  description := c.description.getD d.description
  difficulty := c.difficulty.getD d.difficulty
  problemType := c.problemType.getD d.problemType
  functionName := c.functionName.or d.functionName
  parameters := c.parameters.getD d.parameters
  returnType := c.returnType.or d.returnType
  timeLimitMs := c.timeLimitMs.getD d.timeLimitMs
  memoryLimitMb := c.memoryLimitMb.getD d.memoryLimitMb
  compareConfig := c.compareConfig.getD d.compareConfig
  testCases := c.testCases.getD d.testCases
  testsJSON := c.testsJSON.or d.testsJSON
  isPremium := c.isPremium.getD d.isPremium

/-- What `save` writes of the values that were assigned to a loaded document: a path that has got
the value it had is not modified, lists and subdocuments are. -/
def Changes.since (c : Changes) (loaded : Problem) : Changes :=
  { c with
    externalId := c.externalId.filter fun s => some s ≠ loaded.externalId
    title := c.title.filter (· ≠ loaded.title)
    description := c.description.filter (· ≠ loaded.description)
    difficulty := c.difficulty.filter (· ≠ loaded.difficulty)
    problemType := c.problemType.filter (· ≠ loaded.problemType)
    functionName := c.functionName.filter fun s => some s ≠ loaded.functionName
    returnType := c.returnType.filter fun s => some s ≠ loaded.returnType
    timeLimitMs := c.timeLimitMs.filter (· ≠ loaded.timeLimitMs)
    memoryLimitMb := c.memoryLimitMb.filter (· ≠ loaded.memoryLimitMb)
    testsJSON := c.testsJSON.filter fun s => some s ≠ loaded.testsJSON
    isPremium := c.isPremium.filter (· ≠ loaded.isPremium) }

/-- The validators of the schema. -/
def Problem.valid (d : Problem) : Bool :=
  d.title ≠ "" && d.description ≠ "" && d.difficulty ∈ difficulties &&
    d.problemType ∈ [functionProblem, stdinProblem] &&
    (d.problemType = stdinProblem || d.functionName.getD "" ≠ "" && d.returnType.getD "" ≠ "") &&
    d.returnType.all Judge.isValidType &&
    d.parameters.all (fun p => p.name ≠ "" && Judge.isValidType p.type) &&
    d.compareConfig.mode ∈ ["EXACT", "STRUCTURAL"] &&
    d.testCases.all fun tc => !isMissing tc.expected

/-! ## Casts -/

/-- What the libraries of the service do: the errors of a payload against the contract, and the
casts of values to the types of the schema. -/
structure Platform where
  isDateTime : String → Bool
  schemaErrors : JsValue → List String
  castString : JsValue → Option String
  castNumber : JsValue → Option Binary64
  castBoolean : JsValue → Option Bool
  schema_of_nil : ∀ v, schemaErrors v = [] → problemSchema isDateTime v = true
  castString_str : ∀ s, castString (.str s) = some s
  castNumber_num : ∀ x, castNumber (.num x) = if x matches .nan then none else some x
  castBoolean_bool : ∀ b, castBoolean (.bool b) = some b

variable (platform : Platform)

/-- A member that is there is cast; `none` is a cast error. -/
def castMember {α : Type} (cast : JsValue → Option α) (ms : Members) (k : String) :
    Option (Option α) :=
  match lookup ms k with
  | none => some none
  | some v => (cast v).map some

/-- A value that is no array becomes one. -/
def castArray {α : Type} (cast : JsValue → Option α) : JsValue → Option (List α)
  | .arr xs => xs.mapM cast
  | v => (cast v).map fun x => [x]

def castParameter : JsValue → Option Parameter
  | .obj ms => do
    let name ← castMember platform.castString ms "name"
    let type ← castMember platform.castString ms "type"
    return { name := name.getD "", type := type.getD "" }
  | _ => none

def castCompareConfig : JsValue → Option CompareConfig
  | .obj ms => do
    let mode ← castMember platform.castString ms "mode"
    let floatTolerance ← castMember platform.castNumber ms "floatTolerance"
    let orderInsensitive ← castMember platform.castBoolean ms "orderInsensitive"
    let requireDeepCopy ← castMember platform.castBoolean ms "requireDeepCopy"
    return {
      mode := mode.getD "EXACT"
      floatTolerance := floatTolerance.getD .zero
      orderInsensitive := orderInsensitive.getD false
      requireDeepCopy := requireDeepCopy.getD false }
  | _ => none

def castTest : JsValue → Option TestCase
  | .obj ms => do
    let inputs ← castMember (castArray some) ms "inputs"
    let isSample ← castMember platform.castBoolean ms "isSample"
    let isHidden ← castMember platform.castBoolean ms "isHidden"
    return {
      inputs := inputs.getD []
      expected := lookup ms "expected"
      isSample := isSample.getD false
      isHidden := isHidden.getD false }
  | _ => none

/-- The fields of the schema; other members are dropped. -/
def castProblem (ms : Members) : Option Changes := do
  let externalId ← castMember platform.castString ms "externalId"
  let title ← castMember platform.castString ms "title"
  let description ← castMember platform.castString ms "description"
  let difficulty ← castMember platform.castString ms "difficulty"
  let problemType ← castMember platform.castString ms "problemType"
  let functionName ← castMember platform.castString ms "functionName"
  let parameters ← castMember (castArray (castParameter platform)) ms "parameters"
  let returnType ← castMember platform.castString ms "returnType"
  let timeLimitMs ← castMember platform.castNumber ms "timeLimitMs"
  let memoryLimitMb ← castMember platform.castNumber ms "memoryLimitMb"
  let compareConfig ← castMember (castCompareConfig platform) ms "compareConfig"
  let testCases ← castMember (castArray (castTest platform)) ms "testCases"
  let testsJSON ← castMember platform.castString ms "testsJSON"
  let isPremium ← castMember platform.castBoolean ms "isPremium"
  return {
    externalId, title, description, difficulty, problemType, functionName, parameters, returnType
    timeLimitMs, memoryLimitMb, compareConfig, testCases, testsJSON, isPremium }

/-! ## Requests -/

/-- How the judge answers the run of a reference solution: with an error, or with a status and
what is to be reported of it. -/
inductive Certification where
  | refused (errorText : String)
  | judged (status : String) (errors : List String)

inductive Request where
  | buildPreview (problem : Members) (language : String)
  /-- `POST /run` with the reference solution -/
  | certify (problem : Members)
  | create (changes : Changes)
  | findByIdAndUpdate (id : ObjectId) (changes : Changes)
  | findByIdAndDelete (id : ObjectId)
  | findByExternalId (externalId : String)
  /-- `save` on a loaded document -/
  | save (loaded : Problem) (changes : Changes)

def Reply : Request → Type
  | .buildPreview _ _ => Unit
  | .certify _ => Certification
  | .create _ => Problem
  | .findByIdAndUpdate _ _ => Option Problem
  | .findByIdAndDelete _ => Option Problem
  | .findByExternalId _ => Option Problem
  | .save _ _ => Unit

inductive Failure where
  | http (status : ℕ) (message : String) (errors : List String)
  | thrown (message : String)

def Failure.message : Failure → String
  | .http _ message _ => message
  | .thrown message => message

structure Store where
  problems : List Problem
  /-- the identifiers that were ever given, a history variable -/
  issued : List ObjectId

namespace Store

def problem (s : Store) (id : ObjectId) : Option Problem := s.problems.find? fun d => d.id = id

def external (s : Store) (externalId : String) : Option Problem :=
  s.problems.find? fun d => d.externalId = some externalId

def update (s : Store) (id : ObjectId) (c : Changes) : Store :=
  { s with problems := s.problems.map fun d => if d.id = id then c.apply d else d }

end Store

/-- What the environment decides: a refusal with its message, the identifier of a new document,
and the answer of the judge. -/
structure Choice where
  refused : Option String := none
  newId : ObjectId := ""
  certification : Certification := .judged "Success" []

/-- The identifier is new, and no other problem has the external one. -/
def Store.Free (s : Store) (d : Problem) : Prop :=
  Api.isObjectId d.id = true ∧ d.id ∉ s.issued ∧
    ∀ e ∈ s.problems, d.externalId.isSome = true → e.externalId ≠ d.externalId

instance (s : Store) (d : Problem) : Decidable (s.Free d) := by
  unfold Store.Free
  infer_instance

/-- Serve a request that is not refused. -/
def answer (c : Choice) (s : Store) : (r : Request) → Except Failure (Reply r) × Store
  | .buildPreview _ _ => (.ok (), s)
  | .certify _ => (.ok c.certification, s)
  | .create changes =>
    let d := changes.apply { id := c.newId }
    if d.valid ∧ s.Free d then
      (.ok d, { problems := s.problems ++ [d], issued := d.id :: s.issued })
    else (.error (.thrown "Problem validation failed"), s)
  | .findByIdAndUpdate id changes =>
    (.ok ((s.problem id).map changes.apply), s.update id changes)
  | .findByIdAndDelete id =>
    (.ok (s.problem id), { s with problems := s.problems.filter fun d => d.id ≠ id })
  | .findByExternalId externalId => (.ok (s.external externalId), s)
  | .save loaded changes =>
    if (changes.apply loaded).valid ∧ (s.problem loaded.id).isSome then
      (.ok (), s.update loaded.id (changes.since loaded))
    else (.error (.thrown "Problem validation failed"), s)

def serve (c : Choice) (s : Store) (r : Request) : Except Failure (Reply r) × Store :=
  match c.refused with
  | some message => (.error (.thrown message), s)
  | none => answer c s r

abbrev Task (α : Type) := Program Reply Failure α

abbrev ask (r : Request) : Task (Reply r) := Program.call r

/-! ## Deep validation -/

structure Report where
  schemaValid : Bool := false
  typeValidation : Bool := false
  wrapperGeneration : Bool := false
  referenceSolutionPassed : Bool := false
  errors : List String := []

def Report.error (r : Report) (e : String) : Report := { r with errors := r.errors ++ [e] }

def buildPreviews (problem : Members) : List String → Task Unit
  | [] => return
  | language :: languages => do
    ask (.buildPreview problem language)
    buildPreviews problem languages

/-- The third stage, and its error. -/
def generateWrappers (problem : Members) (report : Report) : Task Report :=
  tryCatch
    (do
      buildPreviews problem ["javascript", "python", "java", "go"]
      return { report with wrapperGeneration := true })
    fun err => return report.error ("Wrapper generation failed: " ++ err.message)

/-- The fourth stage. -/
def verifyReference (problem : Members) (report : Report) : Task Report :=
  if truthy (lookup problem "referenceSolution") ∧ truthy (lookup problem "solutionLanguage") then
    tryCatch
      (do
        let answered : Certification ← ask (.certify problem)
        match answered with
        | .refused errorText =>
          return report.error ("Judge service error during certification: " ++ errorText)
        | .judged status errors =>
          if status = "Success" ∨ status = "Accepted" then
            return { report with referenceSolutionPassed := true }
          else return { report with errors := report.errors ++ errors })
      fun err => return report.error ("Reference solution verification crashed: " ++ err.message)
  else
    return report.error
      "referenceSolution and solutionLanguage are required to pass deep validation."

def validateProblemDefinition (problem : Members) : Task Report := do
  let schemaErrors := platform.schemaErrors (.obj problem)
  if schemaErrors ≠ [] then return { errors := schemaErrors }
  let errors := typeErrors problem
  if errors ≠ [] then return { schemaValid := true, errors }
  let report ← generateWrappers problem { schemaValid := true, typeValidation := true }
  if report.wrapperGeneration then verifyReference problem report else return report

def Report.passed (r : Report) : Bool :=
  r.schemaValid && r.typeValidation && r.wrapperGeneration && r.referenceSolutionPassed

/-! ## The operations -/

/-- What a payload has to pass before it is written; the route has checked it against the
contract. -/
def checkPayload (body : JsValue) : Task Changes := do
  let schemaErrors := platform.schemaErrors body
  if schemaErrors ≠ [] then throw (.http 400 (", ".intercalate schemaErrors) schemaErrors)
  match normalizeProblemPayload (spread body) with
  | none => throw (.thrown "Cannot read properties of null")
  | some normalized =>
    let errors := validateProblemPayload normalized
    if errors ≠ [] then throw (.http 400 "Validation failed" errors)
    let report ← validateProblemDefinition platform normalized
    if !report.passed then throw (.http 400 "Deep validation failed" report.errors)
    match castProblem platform normalized with
    | none => throw (.thrown "Problem validation failed")
    | some changes => return changes

def createProblem (body : JsValue) : Task Problem := do
  let changes ← checkPayload platform body
  ask (.create changes)

def updateProblem (id : ObjectId) (body : JsValue) : Task (Option Problem) := do
  let changes ← checkPayload platform body
  ask (.findByIdAndUpdate id changes)

def deleteProblem (id : ObjectId) : Task (Option Problem) := ask (.findByIdAndDelete id)

/-- A test case of the partner service: the texts of its input and of its expected output. -/
def syncTest (tc : JsValue) : TestCase :=
  let hidden := isArventiqTestHidden tc
  { inputs := [.str (textOrEmpty (chained (some tc) "input"))]
    expected := some (.str (textOrEmpty (chained (some tc) "expected_output")))
    isHidden := hidden
    isSample := !hidden }

def syncId (payload : JsValue) : String := shown (chained (some payload) "id")

/-- `payload.title || `Arventiq Question ${payload.id}``, cast. -/
def syncTitle (payload : JsValue) : Option String :=
  let title := chained (some payload) "title"
  if truthy title then title.bind platform.castString
  else some ("Arventiq Question " ++ syncId payload)

def syncTests (payload : JsValue) : Option (List TestCase) :=
  match chained (some payload) "test_cases" with
  | some (.arr tcs) => some (tcs.map syncTest)
  | _ => none

/-- The document of a payload without errors, with its casts; `none` is a cast error. -/
def syncDocument (payload : JsValue) : Option Changes := do
  let title ← syncTitle platform payload
  let memoryLimitMb ← platform.castNumber (.num (memoryLimitMb payload))
  return {
    externalId := syncId payload
    title := title
    description := textOf (chained (some payload) "question_text")
    difficulty := "Medium"
    problemType := stdinProblem
    timeLimitMs := timeLimitMs payload
    memoryLimitMb := memoryLimitMb
    testCases := syncTests payload
    compareConfig := some {
      mode := "EXACT"
      floatTolerance := orNumber (numberOf (chained (some payload) "float_tolerance")) .zero } }

def syncProblem (payload : JsValue) : Task Problem := do
  match validateArventiqProblemPayload payload with
  | none => throw (.thrown "Cannot read properties of null")
  | some errors =>
    if errors ≠ [] then throw (.http 400 "Invalid Arventiq problem payload" errors)
    let existing : Option Problem ← ask (.findByExternalId (syncId payload))
    match syncDocument platform payload with
    | none => throw (.thrown "Problem validation failed")
    | some doc =>
      match existing with
      | some existing =>
        ask (.save existing doc)
        return doc.apply existing
      | none => ask (.create doc)

/-! ## The operations side by side -/

inductive Operation where
  | create (body : JsValue)
  | update (id : ObjectId) (body : JsValue)
  | delete (id : ObjectId)
  | sync (payload : JsValue)

/-- The problem that was written, where there is one. -/
def Operation.program : Operation → Task (Option Problem)
  | .create body => some <$> createProblem platform body
  | .update id body => updateProblem platform id body
  | .delete id => deleteProblem id
  | .sync payload => some <$> syncProblem platform payload

/-- A call keeps the documents that it has loaded. -/
def look (v : List Problem) : (r : Request) → Reply r → List Problem
  | .findByExternalId _, (some d : Option Problem) => v ++ [d]
  | _, _ => v

def service : Service Operation Store Choice (List Problem) Reply Failure (Option Problem) where
  program := fun op => op.program platform
  serve := serve
  blank := []
  look := look

/-- The interleavings of calls, from an empty database. -/
def system := (service platform).system fun s => s = { problems := [], issued := [] }

end Problems
