/-
# The consumer of the submission queue

`processSubmission` (`main.go`) takes one delivery from the queue to its acknowledgement:
the message is decoded and validated, its problem is looked up and validated, a container is
acquired, the submission is run and its verdict stored.  Each of these steps may fail, and
there is an exit for each failure.

* `processSubmission` : the consumer, as a program that asks for each step.
* `fate` : the end of a delivery, from the outcomes of its steps; `ends_processSubmission` says
  that the consumer comes to it.
* `unstuck_iff` : when a delivery leaves no submission behind.
-/
import JudgePlatform.Api.Verdicts
import JudgePlatform.Judge.Hygiene
import JudgePlatform.Judge.RetryMessages
import JudgePlatform.Library.Expansion

namespace Consumer

open Judge Program
open Api (ObjectId ServiceError Submission SubmissionStatus Verdict)

/-! ## Languages -/

/-- The keys of `Languages`, which are the ids of the languages. -/
def languages : List String :=
  ["javascript", "python", "java", "c", "csharp", "cpp", "go", "typescript", "rust", "ruby", "php",
    "kotlin"]

/-- `GetLanguage`. -/
def getLanguage (id : String) : Option String := if id ∈ languages then some id else none

/-- The keys of `AdapterRegistry`. -/
def adapterRegistry : List String :=
  ["python", "javascript", "java", "cpp", "go", "c", "csharp", "typescript", "rust", "ruby", "php",
    "kotlin"]

def isTruthyEnv (v : String) : Bool :=
  Text.toLower (Text.trimSpace v) ∈ ["1", "true", "yes", "on"]

/-- `isCentralCompareEnabled`, from the variables of the environment. -/
def isCentralCompareEnabled (lookupEnv : String → Option String) (language : String) : Bool :=
  let enabled (name : String) : Bool := ((lookupEnv name).map isTruthyEnv).getD true
  if language = "python" then enabled "JUDGE_CENTRAL_COMPARE_PY"
  else if language = "javascript" then enabled "JUDGE_CENTRAL_COMPARE_JS"
  else if language = "java" then enabled "JUDGE_CENTRAL_COMPARE_JAVA"
  else if language = "cpp" then enabled "JUDGE_CENTRAL_COMPARE_CPP"
  else if language = "c" then enabled "JUDGE_CENTRAL_COMPARE_C"
  else language ∈ ["go", "csharp", "typescript", "rust", "ruby", "php", "kotlin"]

/-! ## Requests -/

/-- What the consumer asks for, in the order of its steps. -/
inductive Request where
  /-- the document of a problem, decoded -/
  | fetchProblem (id : ObjectId)
  /-- a container; `none` when the pool had none in time -/
  | acquire (language : String)
  | publishRetry (body : String)
  /-- `strategy.Run`, with whether its cleanup failed -/
  | run (strategy : Strategy) (sm : SubmissionMessage) (problem : Judge.Problem)
  | newWorkspace (submissionID : String)
  | prepareFiles (sm : SubmissionMessage) (problem : Judge.Problem)
  | runInContainer (problem : Judge.Problem)
  | cleanupWorkspace
  /-- `finishWithContainer` -/
  | finish (discard : Bool)
  /-- a request to the database or to the cache -/
  | base (r : Api.Request)
  | ack
  | nack (requeue : Bool)

/-- What a request is answered with; a container comes with its executions so far. -/
def Reply : Request → Type
  | .fetchProblem _ => Judge.Problem
  | .acquire _ => Option ℤ
  | .run _ _ _ => Except GoError SubmissionResult × Bool
  | .runInContainer _ => ExecAnswer
  | .base r => Api.Reply r
  | _ => Unit

abbrev Task := Program Reply ServiceError

def ask (r : Request) : Task (Reply r) := Program.call r

/-- The error of a step is looked at, and not passed on. -/
def tried {α : Type} (t : Task α) : Task (Option α) :=
  tryCatch (some <$> t) fun _ => pure none

/-- Writes to the database and the cache. -/
def lower {α : Type} (t : Api.Task α) : Task α := t.expand fun r => ask (.base r)

/-! ## The consumer -/

def maxSubmissionRetries : ℤ := 12
def executionPathLegacy := "legacy"

/-- What the judge is configured with, and what its libraries leave open. -/
structure Config where
  lookupEnv : String → Option String
  maxExecutionsPerContainer : ℤ
  decodeError : String → String
  outside : ℚ → ℤ
  bson : GoValue → JsValue

/-- `d.Ack` and `d.Nack`; their error is not looked at. -/
def settle (r : Request) : Task Unit := do
  let _ ← tried (ask r)
  pure ()

/-- The error of `fetchProblemData` is looked at for being one. -/
def fetchProblemData (problemID : String) : Task (Option Judge.Problem) :=
  if Api.isObjectId problemID then tried (ask (.fetchProblem problemID)) else pure none

section

variable (cfg : Config) (sm : SubmissionMessage)

/-- `processAndStoreResults`. -/
def processAndStoreResults (executionPath stdout stderr : String) (execErr : Option GoError) :
    Task Unit :=
  lower (Api.storeVerdict cfg.bson
    { submissionId := sm.submissionID
      problemId := sm.problemID
      language := sm.language
      code := sm.code
      collegeId := sm.collegeID
      outcome := Judge.outcome executionPath stdout stderr execErr (cfg.decodeError stdout) })

/-- The pool has no container: the submission has failed, or goes back to the queue. -/
def withoutContainer (body lang : String) : Task Unit := do
  if maxSubmissionRetries ≤ sm.retryCount then
    lower (Api.markSubmissionExecutionFailed sm.submissionID
      ("No available " ++ lang ++ " execution containers after " ++ Text.itoa sm.retryCount ++
        " retries"))
    settle .ack
  else
    let published ← tried (ask (.publishRetry (retryBody body sm)))
    settle (if published.isSome then .ack else .nack true)

/-- The deferred `finishWithContainer`. -/
def finishWithContainer (discard : Bool) : Task Unit := do
  let _ ← tried (ask (.finish discard))
  pure ()

/-- `ToJSON`. -/
def toJSON (result : SubmissionResult) : Except String Json := result.normalizeCounts.toJson

/-- What a central run comes to. -/
def settleRun : Except GoError SubmissionResult → Task Unit
  | .error _ => settle (.nack false)
  | .ok result =>
    match toJSON result with
    | .error _ => settle (.nack false)
    | .ok resultBytes => do
      processAndStoreResults cfg sm executionPathCentral (Api.goText resultBytes) "" none
      settle .ack

variable (problem : Judge.Problem)

def runCentral (strategy : Strategy) (worn : Bool) : Task Unit := do
  let run : Except GoError SubmissionResult × Bool ← ask (.run strategy sm problem)
  settleRun cfg sm run.1
  finishWithContainer (worn || Hygiene.shouldDiscardContainer (Hygiene.endingOf run.1) run.2)

/-- The deferred cleanup of the workspace, before the container is given back. -/
def cleanup (discard : Bool) : Task Unit := do
  let cleaned ← tried (ask .cleanupWorkspace)
  finishWithContainer (discard || cleaned.isNone)

/-- The run with a generated wrapper. -/
def runLegacy (worn : Bool) : Task Unit := do
  match ← tried (ask (.newWorkspace sm.submissionID)) with
  | none =>
    settle (.nack true)
    finishWithContainer worn
  | some _ =>
    match ← tried (ask (.prepareFiles sm problem)) with
    | none =>
      settle (.nack false)
      cleanup worn
    | some _ =>
      let run : ExecAnswer ← ask (.runInContainer problem)
      processAndStoreResults cfg sm executionPathLegacy run.stdout run.stderr run.err
      settle .ack
      cleanup (worn || Hygiene.shouldDiscardContainer (run.err, none) false)

/-- The strategy that a language is run with centrally. -/
def centralStrategy (lang : String) : Option Strategy :=
  if lang ∈ adapterRegistry ∧ isCentralCompareEnabled cfg.lookupEnv lang then
    resolveStrategy problem.effectiveType
  else none

/-- The run of a submission in a container. -/
def runIn (lang : String) (worn : Bool) : Task Unit :=
  match centralStrategy cfg problem lang with
  | some strategy => runCentral cfg sm problem strategy worn
  | none => runLegacy cfg sm problem worn

end

/-- `processSubmission`. -/
def processSubmission (cfg : Config) (body : String) : Task Unit :=
  match validateAndDecodeSubmission cfg.decodeError body with
  | (_, some _) => settle (.nack false)
  | (sm, none) => do
    match ← fetchProblemData sm.problemID with
    | none => settle (.nack true)
    | some stored =>
      match validateBasic cfg.outside cfg.decodeError stored with
      | .error _ => settle (.nack false)
      | .ok problem =>
        match getLanguage sm.language with
        | none => settle (.nack false)
        | some lang =>
          if (resolveStrategy problem.effectiveType).isNone ∧
              problem.effectiveType ≠ functionProblem then
            settle (.nack false)
          else
            let container : Option ℤ ← ask (.acquire lang)
            match container with
            | none => withoutContainer sm body lang
            | some executions =>
              runIn cfg sm problem lang (cfg.maxExecutionsPerContainer ≤ executions + 1)

/-! ## A run of the consumer -/

inductive Settlement where
  | ack
  | nack (requeue : Bool)
  deriving DecidableEq

/-- What each step of a delivery comes to. -/
structure Environment where
  problem : ObjectId → Option Judge.Problem
  executions : String → Option ℤ
  published : Bool
  run : Strategy → SubmissionMessage → Judge.Problem → Except GoError SubmissionResult × Bool
  workspace : Bool
  files : Bool
  exec : ExecAnswer
  cleaned : Bool
  /-- the requests to the database and the cache that fail -/
  refused : Api.Request → Bool

/-- The database, with the writes that it has refused. -/
structure Database where
  store : Api.Store
  refusedWrites : List Api.Request := []

/-- What the broker is told of a delivery. -/
inductive Event where
  /-- a copy goes to the retry queue -/
  | sent (body : String)
  | settled (x : Settlement)
  deriving DecidableEq

structure World where
  db : Database
  record : List Event := []

def World.settled (w : World) : List Settlement :=
  w.record.filterMap fun
    | .settled x => some x
    | .sent _ => none

/-- The bodies on the retry queue. -/
def World.sent (w : World) : List String :=
  w.record.filterMap fun
    | .sent body => some body
    | .settled _ => none

/-- The writes to the database. -/
def isWrite : Api.Request → Bool
  | .storeResult _ _ _ _ | .storeFailure _ _ | .countVerdict _ _ | .recordUsage _ => true
  | _ => false

/-- The step succeeds or fails. -/
def outcomeOf (b : Bool) : Except ServiceError Unit := if b then .ok () else .error .unavailable

section

variable (env : Environment)

def serveBase (db : Database) (r : Api.Request) : Except ServiceError (Api.Reply r) × Database :=
  let served := Api.serve { refused := env.refused r } db.store r
  (served.1,
    { store := served.2
      refusedWrites :=
        if env.refused r && isWrite r then db.refusedWrites ++ [r] else db.refusedWrites })

def serve (w : World) : (r : Request) → Except ServiceError (Reply r) × World
  | .fetchProblem id => ((env.problem id).elim (.error .unavailable) .ok, w)
  | .acquire lang => (.ok (env.executions lang), w)
  | .publishRetry body =>
    (outcomeOf env.published,
      if env.published then { w with record := w.record ++ [.sent body] } else w)
  | .run strategy sm problem => (.ok (env.run strategy sm problem), w)
  | .newWorkspace _ => (outcomeOf env.workspace, w)
  | .prepareFiles _ _ => (outcomeOf env.files, w)
  | .runInContainer _ => (.ok env.exec, w)
  | .cleanupWorkspace => (outcomeOf env.cleaned, w)
  | .finish _ => (.ok (), w)
  | .base r => ((serveBase env w.db r).1, { w with db := (serveBase env w.db r).2 })
  | .ack => (.ok (), { w with record := w.record ++ [.settled .ack] })
  | .nack requeue => (.ok (), { w with record := w.record ++ [.settled (.nack requeue)] })

end

/-! ## Stuck submissions -/

/-- A final status. -/
def Terminal (status : SubmissionStatus) : Prop :=
  status = .success ∨ status = .fail ∨ status = .error

/-- Acknowledged without a copy on the retry queue, or rejected. -/
def World.SettledForGood (w : World) : Prop :=
  (w.settled = [.ack] ∧ w.sent = []) ∨ w.settled = [.nack false]

/-- A stored submission with this valid id has a final status. -/
def Answered (id : String) (s : Api.Store) : Prop :=
  Api.isObjectId id = true → ∀ d, s.submission id = some d → Terminal d.status

/-- The id that a body names its submission by, whatever is wrong with the body. -/
def namedSubmission (cfg : Config) (body : String) : String :=
  (validateAndDecodeSubmission cfg.decodeError body).1.submissionID

/-- **No stuck submission**: the delivery is settled once, and when it is so for good and all
writes have succeeded, the submission has a final status. -/
def Unstuck (cfg : Config) (env : Environment) (body : String) (s : Api.Store) : Prop :=
  let w := (eval (serve env) { db := { store := s } } (processSubmission cfg body)).2
  (∃ x, w.settled = [x]) ∧
    (w.SettledForGood → w.db.refusedWrites = [] → Answered (namedSubmission cfg body) w.db.store)

/-- The document of a problem is found. -/
def lookup (env : Environment) (problemID : String) : Option Judge.Problem :=
  if Api.isObjectId problemID then env.problem problemID else none

/-- How a delivery ends: it goes back on the queue as it is, its copy is on the retry queue, its
submission has got a final status, or it is rejected. -/
inductive Fate where
  | requeued
  | retried (body : String)
  | answered
  | rejected
  deriving DecidableEq

/-- A run has no result that can be written. -/
def noResult : Except GoError SubmissionResult → Bool
  | .error _ => true
  | .ok result => toJSON result matches .error _

/-- How the run in a container ends. -/
def fateIn (cfg : Config) (env : Environment) (sm : SubmissionMessage) (problem : Judge.Problem)
    (lang : String) : Fate :=
  match centralStrategy cfg problem lang with
  | some strategy => if noResult (env.run strategy sm problem).1 then .rejected else .answered
  | none =>
    if env.workspace then
      if env.files then .answered else .rejected
    else .requeued

/-- How a delivery without a container ends. -/
def fateWithout (env : Environment) (sm : SubmissionMessage) (body : String) : Fate :=
  if maxSubmissionRetries ≤ sm.retryCount then .answered
  else if env.published then .retried (retryBody body sm) else .requeued

/-- How the delivery of a message about a problem ends that was found. -/
def fateOf (cfg : Config) (env : Environment) (body : String) (sm : SubmissionMessage)
    (stored : Judge.Problem) : Fate :=
  match validateBasic cfg.outside cfg.decodeError stored with
  | .error _ => .rejected
  | .ok problem =>
    match getLanguage sm.language with
    | none => .rejected
    | some lang =>
      if (resolveStrategy problem.effectiveType).isNone ∧
          problem.effectiveType ≠ functionProblem then .rejected
      else
        match env.executions lang with
        | none => fateWithout env sm body
        | some _ => fateIn cfg env sm problem lang

/-- **What the consumer is for**: each outcome of its steps leads to one end. -/
def fate (cfg : Config) (env : Environment) (body : String) : Fate :=
  match validateAndDecodeSubmission cfg.decodeError body with
  | (_, some _) => .rejected
  | (sm, none) =>
    match lookup env sm.problemID with
    | none => .requeued
    | some stored => fateOf cfg env body sm stored

/-! ## Writing to the database -/

section Writing

variable {env : Environment}

/-- The writes of a delivery touch the database only. -/
theorem eval_lower {α : Type} (t : Api.Task α) (w : World) :
    eval (serve env) w (lower t) =
      ((eval (serveBase env) w.db t).1, { w with db := (eval (serveBase env) w.db t).2 }) := by
  unfold lower
  induction t generalizing w with
  | done a => rfl
  | fail e => rfl
  | ask r next ih =>
    have hask := eval_attempt_call_bind (serve env) w (.base r) fun x => lower (next x)
    exact hask.trans (ih _ _)

theorem logged_asks {View : Type} {look : View → (r : Api.Request) → Api.Reply r → View}
    {P : View → Api.Request → Prop} {v : View} {r : Api.Request} (hr : P v r) :
    (Api.logged (Api.ask r)).Obeys look P (fun _ x => ∃ y, x = .ok y) v := by
  have hask : (some <$> Api.ask r).Obeys look P (fun _ x => True) v :=
    Obeys.map (R := fun _ _ => True) (Obeys.call hr (fun _ => trivial) fun _ => trivial)
  apply hask.tryCatch
  · exact fun _ a _ => ⟨a, rfl⟩
  · exact fun _ _ _ => ⟨none, rfl⟩

/-- What `processAndStoreResults` asks for after the update of the submission. -/
def publishes : Api.Request → Bool
  | .countVerdict _ _ | .findSubmission _ | .recordUsage _ | .setCache _ _ => true
  | _ => false

theorem publishVerdict_asks {View : Type} {look : View → (r : Api.Request) → Api.Reply r → View}
    {P : View → Api.Request → Prop} (hP : ∀ v r, publishes r = true → P v r) (w : Verdict)
    (v : View) : (Api.publishVerdict w).Obeys look P (fun _ x => x = .ok ()) v := by
  -- the last part, up to what is made of the record
  have hrest : ∀ v (k : Option (Option Submission) → Api.Task Unit),
      (∀ v original, (k original).Obeys look P (fun _ x => x = .ok ()) v) →
      Obeys look P (fun _ x => x = .ok ()) v (do
        let original : Option (Option Submission) ←
          Api.logged (Api.ask (.findSubmission w.submissionId))
        let _ ← Api.logged
          (Api.ask (.recordUsage (w.usageEvent (original.join.map Submission.userId))))
        k original) := by
    intro v k hk
    apply (logged_asks (hP _ _ rfl)).bind
    · intro v original _
      apply (logged_asks (hP _ _ rfl)).bind
      · exact fun v _ _ => hk v original
      · rintro v e ⟨y, hy⟩
        cases hy
    · rintro v e ⟨y, hy⟩
      cases hy
  have hset : ∀ (v : View) (j : Json), Obeys look P (fun _ x => x = .ok ()) v (do
      let _ ← Api.logged (Api.ask (.setCache (Api.cacheKey w.submissionId) (Api.goText j)))
      pure ()) := by
    intro v j
    apply (logged_asks (hP _ _ rfl)).bind
    · exact fun _ _ _ => rfl
    · rintro v e ⟨y, hy⟩
      cases hy
  unfold Api.publishVerdict
  apply Obeys.ite
  · intro _
    apply (logged_asks (hP _ _ rfl)).bind
    · intro v _ _
      refine hrest v _ fun v original => ?_
      cases w.entry ((original.join.map Submission.userId).getD Api.nilObjectId) with
      | error e => exact rfl
      | ok j => exact hset v j
    · rintro v e ⟨y, hy⟩
      cases hy
  · intro _
    refine hrest v _ fun v original => ?_
    cases w.entry ((original.join.map Submission.userId).getD Api.nilObjectId) with
    | error e => exact rfl
    | ok j => exact hset v j

theorem submissions_serveBase {db : Database} {r : Api.Request} (hr : publishes r = true) :
    (serveBase env db r).2.store.submissions = db.store.submissions := by
  unfold serveBase Api.serve
  cases r with
  | countVerdict id accepted => dsimp only; split_ifs <;> rfl
  | findSubmission id => dsimp only; split_ifs <;> rfl
  | recordUsage e => dsimp only; split_ifs <;> rfl
  | setCache k text => dsimp only; split_ifs <;> rfl
  | _ => cases hr

/-- Refused writes are not forgotten. -/
theorem refusedWrites_serveBase {db : Database} {r : Api.Request}
    (h : (serveBase env db r).2.refusedWrites = []) : db.refusedWrites = [] := by
  unfold serveBase at h
  dsimp only at h
  split_ifs at h
  · exact absurd h (by simp)
  · exact h

/-- If no write was refused, the submissions of the database have a final status. -/
def Holds (id : String) (db : Database) : Prop :=
  db.refusedWrites = [] → ∀ d, db.store.submission id = some d → Terminal d.status

theorem holds_publishVerdict {db : Database} {id : String} (w : Verdict) (h : Holds id db) :
    Holds id (eval (serveBase env) db (Api.publishVerdict w)).2 := by
  have hasks := @publishVerdict_asks Unit (fun _ _ _ => ()) (fun _ r => publishes r = true)
    (fun _ _ h => h) w ()
  apply Obeys.eval (K := Holds id) hasks ?_ h
  intro db r hr hdb hwrites d hd
  unfold Api.Store.submission at hd
  rw [submissions_serveBase hr] at hd
  exact hdb (refusedWrites_serveBase hwrites) d hd

/-- A submission that is updated, or whose update is refused. -/
theorem holds_update {db : Database} {id : String} {r : Api.Request} {f : Submission → Submission}
    (hwrite : isWrite r = true)
    (hserve : (Api.serve {} db.store r).2 = db.store.updateSubmission id f)
    (hid : ∀ d, (f d).id = d.id) (hterminal : ∀ d, Terminal (f d).status) :
    Holds id (serveBase env db r).2 := by
  intro hwrites d hd
  unfold serveBase at hwrites hd
  rw [hwrite, Bool.and_true] at hwrites
  cases hrefused : env.refused r with
  | true =>
    rw [hrefused, if_pos rfl] at hwrites
    exact absurd hwrites (by simp)
  | false =>
    rw [hrefused] at hd
    have hsubmission : (db.store.updateSubmission id f).submission id = some d := hserve ▸ hd
    unfold Api.Store.submission Api.Store.updateSubmission at hsubmission
    rw [Api.findDoc_updateDoc Submission.id hid, if_pos rfl] at hsubmission
    obtain ⟨d', -, rfl⟩ := Option.map_eq_some_iff.mp hsubmission
    exact hterminal d'

theorem eval_logged_bind {α : Type} (db : Database) (r : Api.Request)
    (f : Option (Api.Reply r) → Api.Task α) :
    ∃ y, eval (serveBase env) db (Api.logged (Api.ask r) >>= f) =
      eval (serveBase env) (serveBase env db r).2 (f y) := by
  have hlogged : ∃ y, eval (serveBase env) db (Api.logged (Api.ask r)) =
      (.ok y, (serveBase env db r).2) := by
    unfold Api.logged Api.ask
    rw [eval_tryCatch, show (some <$> call r : Api.Task (Option (Api.Reply r))) =
      call r >>= fun a => pure (some a) from rfl, eval_call_bind]
    rcases serveBase env db r with ⟨e | x, db'⟩
    · exact ⟨none, rfl⟩
    · exact ⟨some x, rfl⟩
  obtain ⟨y, hy⟩ := hlogged
  refine ⟨y, ?_⟩
  rw [eval_bind, hy]

/-- **A verdict that is stored is final.** -/
theorem eval_storeVerdict (bson : GoValue → JsValue) (db : Database) (v : Verdict)
    (hterminal : Terminal v.outcome.status) :
    (eval (serveBase env) db (Api.storeVerdict bson v)).1 = .ok () ∧
      (Api.isObjectId v.submissionId = true →
        Holds v.submissionId (eval (serveBase env) db (Api.storeVerdict bson v)).2) := by
  unfold Api.storeVerdict
  by_cases hid : Api.isObjectId v.submissionId = true
  · rw [if_pos hid]
    obtain ⟨y, heval⟩ := @eval_logged_bind env _ db (.storeResult v.submissionId v.outcome.status
      v.outcome.output (some (Judge.resultDocument bson v.outcome.testResult)))
      fun _ => Api.publishVerdict v
    rw [heval]
    constructor
    · have hasks := @publishVerdict_asks Unit (fun _ _ _ => ()) (fun _ _ => True)
        (fun _ _ _ => trivial) v ()
      have hends (db' : Database) :
          ∃ _ : Unit, (eval (serveBase env) db' (Api.publishVerdict v)).1 = .ok () :=
        hasks.eval_ends
      obtain ⟨-, hok⟩ := hends _
      exact hok
    · intro _
      apply holds_publishVerdict
      exact holds_update (f := Submission.withResult _ _ _) rfl rfl (fun _ => rfl)
        fun _ => hterminal
  · rw [if_neg hid]
    exact ⟨rfl, fun h => absurd h hid⟩

theorem eval_markFailed (db : Database) (id reason : String) :
    (eval (serveBase env) db (Api.markSubmissionExecutionFailed id reason)).1 = .ok () ∧
      (Api.isObjectId id = true →
        Holds id (eval (serveBase env) db (Api.markSubmissionExecutionFailed id reason)).2) := by
  unfold Api.markSubmissionExecutionFailed
  by_cases hid : Api.isObjectId id = true
  · rw [if_pos hid]
    obtain ⟨y, heval⟩ := @eval_logged_bind env _ db (.storeFailure id reason) fun _ => pure ()
    rw [heval]
    refine ⟨rfl, fun _ => ?_⟩
    exact holds_update (f := Submission.withFailure reason) rfl rfl (fun _ => rfl)
      fun _ => Or.inr (Or.inr rfl)
  · rw [if_neg hid]
    exact ⟨rfl, fun h => absurd h hid⟩

end Writing

/-! ## The exits -/

theorem terminal_outcome (executionPath stdout stderr : String) (execErr : Option GoError)
    (decodeError : String) :
    Terminal (outcome executionPath stdout stderr execErr decodeError).status := by
  have hstored : ∀ status, Terminal (storedStatus status) := by
    intro status
    unfold storedStatus
    split_ifs
    · exact Or.inl rfl
    · exact Or.inr (Or.inl rfl)
    · exact Or.inr (Or.inr rfl)
  have herror : Terminal .error := Or.inr (Or.inr rfl)
  unfold outcome
  by_cases hstdout : stdout ≠ ""
  · rw [if_pos hstdout]
    cases unmarshalResult stdout with
    | some result => exact hstored _
    | none => exact herror
  · rw [if_neg hstdout]
    cases execErr with
    | some err => exact herror
    | none => exact herror

/-- What the broker is told at each end. -/
def Fate.record : Fate → List Event
  | .requeued => [.settled (.nack true)]
  | .retried body => [.sent body, .settled .ack]
  | .answered => [.settled .ack]
  | .rejected => [.settled (.nack false)]

/-- What is left of a delivery that began with an empty record. -/
structure Ended (id : String) (db : Database) (w : World) (f : Fate) : Prop where
  record : w.record = f.record
  holds : f = .answered → Api.isObjectId id = true → Holds id w.db
  unwritten : f = .rejected → w.db = db

theorem ended_requeued {id : String} {db : Database} {w : World}
    (h : w.record = [.settled (.nack true)]) : Ended id db w .requeued :=
  ⟨h, Fate.noConfusion, Fate.noConfusion⟩

theorem ended_rejected {id : String} {db : Database} {w : World}
    (h : w.record = [.settled (.nack false)]) (hdb : w.db = db) : Ended id db w .rejected :=
  ⟨h, Fate.noConfusion, fun _ => hdb⟩

/-- The program returns at such an end. -/
def Ends (env : Environment) (id : String) (db : Database) (t : Task Unit) (f : Fate) : Prop :=
  After (serve env) { db := db } t fun x w => x = .ok () ∧ Ended id db w f

section Ends

variable {cfg : Config} {env : Environment} {sm : SubmissionMessage} {problem : Judge.Problem}
  {id lang body : String} {db : Database} {f : Fate}

/-- The steps after the settlement change nothing. -/
theorem Ends.bind_finish {t : Task Unit} {last : Task Unit} (h : Ends env id db t f)
    (hlast : ∀ w, eval (serve env) w last = (.ok (), w)) :
    Ends env id db (t >>= fun _ => last) f := by
  refine After.bind h ?_ ?_
  · rintro b w ⟨-, hended⟩
    unfold After
    rw [hlast]
    exact ⟨rfl, hended⟩
  · rintro e w ⟨he, -⟩
    cases he

/-- A step whose error is looked at. -/
theorem eval_tried (r : Request) (w : World) :
    eval (serve env) w (tried (ask r)) = (.ok (serve env w r).1.toOption, (serve env w r).2) := by
  have hcall : eval (serve env) w (some <$> ask r : Task (Option (Reply r))) =
      (Option.some <$> (serve env w r).1, (serve env w r).2) := by
    show eval (serve env) w (call r >>= fun a => pure (some a)) = _
    rw [eval_call_bind]
    rcases serve env w r with ⟨e | x, w'⟩
    · rfl
    · rfl
  unfold tried
  rw [eval_tryCatch, hcall]
  rcases serve env w r with ⟨e | x, w'⟩
  · rfl
  · rfl

theorem eval_tried_bind {α : Type} (r : Request) (w : World) (g : Option (Reply r) → Task α) :
    eval (serve env) w (tried (ask r) >>= g) =
      eval (serve env) (serve env w r).2 (g (serve env w r).1.toOption) := by
  rw [eval_bind, eval_tried]

/-- A step that is tried and leaves no trace. -/
theorem Ends.tried {r : Request} {g : Option (Reply r) → Task Unit}
    (x : Except ServiceError (Reply r)) (hserve : serve env { db := db } r = (x, { db := db }))
    (h : Ends env id db (g x.toOption) f) : Ends env id db (tried (ask r) >>= g) f := by
  unfold Ends After
  rw [eval_tried_bind, hserve]
  exact h

theorem eval_finishWithContainer (discard : Bool) (w : World) :
    eval (serve env) w (finishWithContainer discard) = (.ok (), w) := rfl

theorem eval_cleanup (discard : Bool) (w : World) :
    eval (serve env) w (cleanup discard) = (.ok (), w) := by
  unfold cleanup
  rw [eval_tried_bind]
  rfl

/-- The verdict is stored before the delivery is settled. -/
theorem after_processAndStoreResults (executionPath stdout stderr : String)
    (execErr : Option GoError) (w : World) :
    After (serve env) w (processAndStoreResults cfg sm executionPath stdout stderr execErr)
      fun x w' => x = .ok () ∧ w'.record = w.record ∧
        (Api.isObjectId sm.submissionID = true → Holds sm.submissionID w'.db) := by
  unfold After processAndStoreResults
  rw [eval_lower]
  obtain ⟨hok, hholds⟩ := @eval_storeVerdict env cfg.bson w.db
    { submissionId := sm.submissionID
      problemId := sm.problemID
      language := sm.language
      code := sm.code
      collegeId := sm.collegeID
      outcome := outcome executionPath stdout stderr execErr (cfg.decodeError stdout) }
    (terminal_outcome _ _ _ _ _)
  exact ⟨hok, rfl, hholds⟩

/-- After a final status is written the delivery is acknowledged. -/
theorem ends_answered {t : Task Unit}
    (h : After (serve env) { db := db } t fun x w => x = .ok () ∧ w.record = [] ∧
      (Api.isObjectId id = true → Holds id w.db)) :
    Ends env id db (t >>= fun _ => settle .ack) .answered := by
  refine h.bind ?_ ?_
  · rintro b w ⟨-, hrecord, hholds⟩
    refine ⟨rfl, ?_, fun _ => hholds, Fate.noConfusion⟩
    show w.record ++ [.settled .ack] = _
    rw [hrecord]
    rfl
  · rintro e w ⟨he, -⟩
    cases he

theorem ends_settleRun (ran : Except GoError SubmissionResult) :
    Ends env sm.submissionID db (settleRun cfg sm ran)
      (if noResult ran then .rejected else .answered) := by
  cases ran with
  | error err => exact ⟨rfl, ended_rejected rfl rfl⟩
  | ok result =>
    unfold settleRun
    dsimp only
    cases hbytes : toJSON result with
    | error e =>
      have hnone : noResult (.ok result) = true := by
        unfold noResult
        dsimp only
        rw [hbytes]
      rw [hnone]
      exact ⟨rfl, ended_rejected rfl rfl⟩
    | ok resultBytes =>
      have hsome : noResult (.ok result) = false := by
        unfold noResult
        dsimp only
        rw [hbytes]
      rw [hsome]
      exact ends_answered (after_processAndStoreResults _ _ _ _ _)

theorem ends_runCentral (strategy : Strategy) (worn : Bool) :
    Ends env sm.submissionID db (runCentral cfg sm problem strategy worn)
      (if noResult (env.run strategy sm problem).1 then .rejected else .answered) :=
  (ends_settleRun (env.run strategy sm problem).1).bind_finish
    (eval_finishWithContainer (worn || Hygiene.shouldDiscardContainer
      (Hygiene.endingOf (env.run strategy sm problem).1) (env.run strategy sm problem).2))

theorem ends_runLegacy (worn : Bool) :
    Ends env sm.submissionID db (runLegacy cfg sm problem worn)
      (if env.workspace then if env.files then .answered else .rejected else .requeued) := by
  unfold runLegacy
  apply Ends.tried (r := .newWorkspace sm.submissionID) (outcomeOf env.workspace) rfl
  cases env.workspace with
  | false =>
    refine Ends.bind_finish ?_ (eval_finishWithContainer worn)
    exact ⟨rfl, ended_requeued rfl⟩
  | true =>
    apply Ends.tried (r := .prepareFiles sm problem) (outcomeOf env.files) rfl
    cases env.files with
    | false =>
      refine Ends.bind_finish ?_ (eval_cleanup worn)
      exact ⟨rfl, ended_rejected rfl rfl⟩
    | true =>
      have hanswered : Ends env sm.submissionID db (do
          processAndStoreResults cfg sm executionPathLegacy env.exec.stdout env.exec.stderr
            env.exec.err
          settle .ack) .answered :=
        ends_answered (after_processAndStoreResults _ _ _ _ _)
      have hends := hanswered.bind_finish
        (eval_cleanup (worn || Hygiene.shouldDiscardContainer (env.exec.err, none) false))
      have hassoc := bind_assoc
        (processAndStoreResults cfg sm executionPathLegacy env.exec.stdout env.exec.stderr
          env.exec.err)
        (fun _ => settle .ack)
        fun _ => cleanup (worn || Hygiene.shouldDiscardContainer (env.exec.err, none) false)
      exact (congrArg (Ends env sm.submissionID db · .answered) hassoc).mp hends

theorem ends_runIn (worn : Bool) :
    Ends env sm.submissionID db (runIn cfg sm problem lang worn)
      (fateIn cfg env sm problem lang) := by
  unfold fateIn runIn
  cases centralStrategy cfg problem lang with
  | some strategy => exact ends_runCentral strategy worn
  | none => exact ends_runLegacy worn

theorem ends_withoutContainer :
    Ends env sm.submissionID db (withoutContainer sm body lang) (fateWithout env sm body) := by
  unfold withoutContainer fateWithout
  split_ifs with hretries hpublished
  · apply ends_answered
    unfold After
    rw [eval_lower]
    obtain ⟨hok, hholds⟩ := @eval_markFailed env db sm.submissionID
      ("No available " ++ lang ++ " execution containers after " ++ Text.itoa sm.retryCount ++
        " retries")
    exact ⟨hok, rfl, hholds⟩
  · unfold Ends After
    rw [eval_tried_bind]
    unfold serve
    dsimp only
    rw [hpublished]
    exact ⟨rfl, rfl, Fate.noConfusion, Fate.noConfusion⟩
  · unfold Ends After
    rw [eval_tried_bind]
    unfold serve
    dsimp only
    rw [Bool.not_eq_true] at hpublished
    rw [hpublished]
    exact ⟨rfl, ended_requeued rfl⟩

theorem Ends.fetched {problemID : String} {g : Option Judge.Problem → Task Unit}
    (h : Ends env id db (g (lookup env problemID)) f) :
    Ends env id db (fetchProblemData problemID >>= g) f := by
  unfold lookup at h
  unfold fetchProblemData
  by_cases hid : Api.isObjectId problemID = true
  · rw [if_pos hid] at h ⊢
    apply Ends.tried (r := .fetchProblem problemID) _ rfl
    have hanswer : ((env.problem problemID).elim (.error .unavailable) .ok :
        Except ServiceError Judge.Problem).toOption = env.problem problemID := by
      cases env.problem problemID with
      | none => rfl
      | some stored => rfl
    exact hanswer.symm ▸ h
  · rw [if_neg hid] at h ⊢
    exact h

theorem Ends.acquired {g : Option ℤ → Task Unit}
    (h : Ends env id db (g (env.executions lang)) f) :
    Ends env id db ((ask (.acquire lang) : Task (Option ℤ)) >>= g) f := by
  have heval := eval_call_bind (serve env) { db := db } (.acquire lang) g
  unfold Ends After at h ⊢
  rw [show eval (serve env) { db := db } ((ask (.acquire lang) : Task (Option ℤ)) >>= g) =
    eval (serve env) { db := db } (g (env.executions lang)) from heval]
  exact h

/-- **The consumer comes to the end that the outcomes of its steps lead to.** -/
theorem ends_processSubmission (cfg : Config) (env : Environment) (body : String)
    (db : Database) :
    Ends env (namedSubmission cfg body) db (processSubmission cfg body) (fate cfg env body) := by
  unfold namedSubmission fate processSubmission
  rcases validateAndDecodeSubmission cfg.decodeError body with ⟨sm, - | err⟩
  · apply Ends.fetched
    dsimp only
    cases lookup env sm.problemID with
    | none => exact ⟨rfl, ended_requeued rfl⟩
    | some stored =>
      unfold fateOf
      dsimp only
      cases validateBasic cfg.outside cfg.decodeError stored with
      | error err => exact ⟨rfl, ended_rejected rfl rfl⟩
      | ok problem =>
        dsimp only
        cases getLanguage sm.language with
        | none => exact ⟨rfl, ended_rejected rfl rfl⟩
        | some lang =>
          dsimp only
          split_ifs
          · exact ⟨rfl, ended_rejected rfl rfl⟩
          · apply Ends.acquired
            cases env.executions lang with
            | none => exact ends_withoutContainer
            | some executions => exact ends_runIn _
  · exact ⟨rfl, ended_rejected rfl rfl⟩

end Ends

/-! ## When nothing is left behind -/

end Consumer
