/-
# What a run leaves in its container

Everything that the judge does to a pooled container, from the first copied file to
the moment when the container is released or discarded: the entry points of
`pkg/executor/executor.go` that compile and run, and their callers in
`central_runner.go`, `stdin_runner.go` and `main.go`.  Every Docker call succeeds; what
the commands of the user do is given by a list of outcomes without end.

* `Request` : what the judge asks of a container.
* `Job.program` : a submission, a run or a raw run as a program over these requests.
* `releases` : the runs after which the container went back to the pool.
* `hygienic_iff` : these leave it clean only if they have put nothing there.
-/
import JudgePlatform.Judge.RawRuns
import JudgePlatform.Judge.StdinRunner
import JudgePlatform.Library.Expansion

namespace Hygiene

open Judge RawRuns Program

/-! ## Containers -/

/-- How a command of the user ends: by itself, in its own timeout, or at the deadline of
the caller. -/
inductive UserEnd where
  | exited (exitCode : ℤ)
  | timedOut (timeout : String)
  | deadline

def UserEnd.toExecEnd : UserEnd → ExecEnd
  | exited exitCode => .exited exitCode
  | timedOut timeout => .timedOut timeout
  | deadline => .failed .deadlineExceeded

/-- What a command of the user does: what it writes, how it ends, which processes of the
judge user are alive then, and which names there are in `/tmp`. -/
structure Outcome where
  stdout : String := ""
  stderr : String := ""
  ended : UserEnd := .exited 0
  processes : List String := []
  tmp : List String := []

/-- A pooled container: its memory limit, the processes of the judge user, the names in
`/tmp`, and the directories of runs under `/app`, which belong to root. -/
structure Container where
  memoryMb : ℤ := 1024
  processes : List String := []
  tmp : List String := []
  app : List String := []
  /-- `ExecutionCount` -/
  executionCount : ℕ := 0
  deriving DecidableEq

/-- A container, and how many commands of users have run in it. -/
structure World where
  container : Container := {}
  commands : ℕ := 0

/-- What the judge asks of a container.  The copied files and the command line, which no
answer depends on, are left out. -/
inductive Request where
  /-- `mkdir -p dir` and `tar -xf - -C dir`, as root -/
  | copyFiles (dir : String)
  /-- `UpdateContainer` -/
  | setMemory (memoryMb : ℤ)
  /-- a command of the user, in the directory of its run -/
  | userCommand (dir : String)
  /-- `rm -rf /tmp/* && (pkill -9 -u judge || true)`, as root -/
  | cleanup

def Reply : Request → Type
  | .userCommand _ => Exec
  | _ => Unit

/-- A part of the judge; a request is never refused. -/
abbrev Task := Program Reply Empty

/-- A name that the pattern `*` of the shell does not match. -/
def isHidden (name : String) : Bool := Text.hasPrefix name "."

/-- The effect of a request, and its answer; `user` are the outcomes of the commands of
users. -/
def serve (user : ℕ → Outcome) (w : World) : (r : Request) → Except Empty (Reply r) × World
  | .copyFiles dir =>
    (.ok (), { w with container := { w.container with app := dir :: w.container.app } })
  | .setMemory memoryMb =>
    (.ok (), { w with container := { w.container with memoryMb := memoryMb } })
  | .userCommand _ =>
    let outcome := user w.commands
    (.ok ⟨outcome.stdout, outcome.stderr, outcome.ended.toExecEnd⟩,
      { container := { w.container with processes := outcome.processes, tmp := outcome.tmp }
        commands := w.commands + 1 })
  | .cleanup =>
    (.ok (), { w with container :=
      { w.container with processes := [], tmp := w.container.tmp.filter isHidden } })

/-! ## The executor -/

def copyFiles (dir : String) : Task Unit := call (Request.copyFiles dir)

def setMemory (memoryMb : ℤ) : Task Unit := call (Request.setMemory memoryMb)

def userCommand (dir : String) : Task Exec := call (Request.userCommand dir)

def cleanup : Task Unit := call Request.cleanup

/-- `copyFilesToContainer`. -/
def copyFilesToContainer (dir : String) (files : List String) : Task Unit :=
  if files = [] then pure () else copyFiles dir

def updateContainerResources (memoryMb : ℤ) : Task Unit :=
  if memoryMb ≤ 0 then pure () else setMemory memoryMb

def compilationMemoryFloorMb (compileCmd : List String) : ℤ :=
  if compileCmd.any fun arg => Text.contains arg "kotlinc" then 2048 else 1024

/-- The memory limit of the compile step. -/
def limitCompilation (compileCmd : List String) (memoryLimitMb : ℤ) : Task Unit :=
  if 0 < memoryLimitMb then
    updateContainerResources (max memoryLimitMb (compilationMemoryFloorMb compileCmd))
  else pure ()

/-- The run of a program between its memory limit and the clean-up. -/
def runAndCleanUp (dir : String) (memoryLimitMb : ℤ) : Task Exec := do
  if 0 < memoryLimitMb then updateContainerResources memoryLimitMb
  let run ← userCommand dir
  if 0 < memoryLimitMb then updateContainerResources 1024
  cleanup
  pure run

/-- The steps that `RunInContainerStream`, `RunInContainerWithStdin` and `RunRawWithStdin`
share: the run, or the compile command that failed with its error. -/
def compileAndRun (dir : String) (files compileCmd : List String) (memoryLimitMb : ℤ) :
    Task (Except (Exec × GoError) Exec) := do
  copyFilesToContainer dir files
  limitCompilation compileCmd memoryLimitMb
  if compileCmd = [] then
    let run ← runAndCleanUp dir memoryLimitMb
    pure (.ok run)
  else
    let compile ← userCommand dir
    match (execResult compile.ended).2 with
    | some err => pure (.error (compile, err))
    | none =>
      let run ← runAndCleanUp dir memoryLimitMb
      pure (.ok run)

/-- `RunInContainerStream`, up to the end of its stream. -/
def runInContainerStream (dir : String) (files compileCmd : List String) (memoryLimitMb : ℤ) :
    Task (Except GoError ExecStream) := do
  match ← compileAndRun dir files compileCmd memoryLimitMb with
  | .error (compile, err) => pure (.error (compileError compile err))
  | .ok run => pure (.ok ⟨.ok run.stdout, run.stderr, execWaitResult run.ended⟩)

def runInContainer (dir : String) (files compileCmd : List String) (memoryLimitMb : ℤ) :
    Task ExecAnswer := do
  match ← compileAndRun dir files compileCmd memoryLimitMb with
  | .error (compile, err) => pure ⟨"", "", some (compileError compile err)⟩
  | .ok run => pure ⟨run.stdout, run.stderr, (execWaitResult run.ended).2⟩

def runInContainerWithStdin (dir : String) (files compileCmd : List String)
    (memoryLimitMb : ℤ) : Task ExecAnswer := do
  match ← compileAndRun dir files compileCmd memoryLimitMb with
  | .error (compile, err) => pure ⟨"", "", some (compileError compile err)⟩
  | .ok run => pure ⟨run.stdout, run.stderr, (execResult run.ended).2⟩

/-- `RunRawWithStdin`. -/
def runRawWithStdin (dir : String) (files compileCmd : List String) (memoryLimitMb : ℤ) :
    Task RawResult := do
  match ← compileAndRun dir files compileCmd memoryLimitMb with
  | .error (compile, err) =>
    pure { compileOutput := combined compile, execErr := some (compileError compile err) }
  | .ok run => pure (runProgram run)

def compileInContainer (dir : String) (files compileCmd : List String) (memoryLimitMb : ℤ) :
    Task ExecAnswer := do
  copyFilesToContainer dir files
  limitCompilation compileCmd memoryLimitMb
  let compile ← userCommand dir
  pure ⟨compile.stdout, compile.stderr, (execResult compile.ended).2.map fun err =>
    .execution .errCompilationFailed err.text (-1)⟩

/-! ## The runs -/

/-- The names of the files that were prepared; there is always one. -/
structure Sources where
  files : List String
  nonempty : files ≠ []

/-- A submission that is run by a strategy: its problem, its prepared files, and the
compile command of an adapter that compiles. -/
structure Submission where
  problem : Problem
  clock : Clock
  prepareFiles : Except GoError Sources
  compileCommand : Option (List String)

/-- The answer that stands for an exec that is not made. -/
def noAnswer : ExecAnswer := ⟨"", "", none⟩

/-- `compileCentralSubmission` and `compileStdinSubmission`, as far as the container. -/
def compileStep (dir : String) (sub : Submission) (files : List String) :
    Task (Option ExecAnswer) :=
  match sub.compileCommand with
  | none => pure none
  | some compileCmd =>
    some <$> compileInContainer dir files compileCmd sub.problem.memoryLimitMb

/-- The files that each exec copies: none of a language that is compiled before. -/
def Submission.filesToCopy (sub : Submission) (files : List String) : List String :=
  if sub.compileCommand.isSome then [] else files

/-- The execs of a loop over the tests; `skip` is the test for which the loop goes on
without one. -/
def testExecs (skip : TestCase → Bool) (run : Task ExecAnswer) :
    List TestCase → Task (List ExecAnswer)
  | [] => pure []
  | tc :: tcs => do
    let answer ← if skip tc then pure noAnswer else run
    let answers ← testExecs skip run tcs
    pure (answer :: answers)

/-- The steps that the two loops over tests share: compile, then one exec for each test. -/
def compileThenTest (dir : String) (sub : Submission) (skip : TestCase → Bool)
    (run : List String → Task ExecAnswer)
    (result : Preparation → (ℕ → ExecAnswer) → Except GoError SubmissionResult) :
    Task (Except GoError SubmissionResult) :=
  match sub.prepareFiles with
  | .error err => pure (result ⟨some err, none⟩ fun _ => noAnswer)
  | .ok sources => do
    let compile ← compileStep dir sub sources.files
    match compileCentralSubmission compile with
    | some _ => pure (result ⟨none, compile⟩ fun _ => noAnswer)
    | none =>
      let answers ← testExecs skip (run (sub.filesToCopy sources.files)) sub.problem.testCases
      pure (result ⟨none, compile⟩ fun i => answers.getD i noAnswer)

/-- `runSubmissionCentralPerTest`. -/
def runSubmissionCentralPerTest (dir : String) (sub : Submission) :
    Task (Except GoError SubmissionResult) :=
  compileThenTest dir sub (fun tc => tc.payload.marshal matches .error _)
    (fun files => runInContainer dir files [] sub.problem.memoryLimitMb)
    (Judge.runSubmissionCentralPerTest sub.problem sub.clock)

/-- `runSubmissionStdinDetailed`. -/
def runSubmissionStdin (dir : String) (sub : Submission) :
    Task (Except GoError SubmissionResult) :=
  compileThenTest dir sub (fun tc => (stdinTestInput tc).isNone || (stdinTestExpected tc).isNone)
    (fun files => runInContainerWithStdin dir files [] sub.problem.memoryLimitMb)
    (Judge.runSubmissionStdin sub.problem sub.clock)

/-- The tests of a batched run can be handed to its wrapper. -/
def payloadFits (problem : Problem) : Bool :=
  match (testsPayload problem).marshal with
  | .error _ => false
  | .ok json => Text.byteLength (String.ofList (json.print Json.goEscape)) ≤ maxTestsBytes

/-- `runSubmissionCentralBatched`. -/
def runSubmissionCentralBatched (dir : String) (sub : Submission) :
    Task (Except GoError SubmissionResult) :=
  let result := Judge.runSubmissionCentralBatched sub.problem sub.clock
  let noStream : Except GoError ExecStream := .error (.other "")
  match sub.prepareFiles with
  | .error err => pure (result ⟨some err, none⟩ noStream)
  | .ok sources => do
    let compile ← compileStep dir sub sources.files
    match compileCentralSubmission compile with
    | some _ => pure (result ⟨none, compile⟩ noStream)
    | none =>
      if payloadFits sub.problem then
        let stream ← runInContainerStream dir (sub.filesToCopy sources.files) []
          sub.problem.memoryLimitMb
        pure (result ⟨none, compile⟩ stream)
      else pure (result ⟨none, compile⟩ noStream)

/-- What a run is about. -/
inductive Work where
  /-- a function problem, with one exec for each test -/
  | perTest (sub : Submission)
  /-- a function problem, with one exec for all tests -/
  | batched (sub : Submission)
  /-- a stdin problem; the language may have no stdin adapter -/
  | stdin (sub : Except GoError Submission)
  /-- the rest of `processSubmission`, for a language without central comparison -/
  | legacy (prepareFiles : Except GoError Sources) (compileCmd : List String) (memoryLimitMb : ℤ)
  /-- `handleRawRun` -/
  | raw (prepareFiles : Except GoError Sources) (compileCmd : List String) (memoryLimitMb : ℤ)

/-- The error and the result that decide whether the container is discarded. -/
abbrev Ending := Option GoError × Option SubmissionResult

def endingOf : Except GoError SubmissionResult → Ending
  | .error err => (some err, none)
  | .ok result => (none, some result)

/-- A run as a program. -/
def Work.program (dir : String) : Work → Task Ending
  | perTest sub => endingOf <$> runSubmissionCentralPerTest dir sub
  | batched sub => endingOf <$> runSubmissionCentralBatched dir sub
  | stdin (.error err) => pure (some err, none)
  | stdin (.ok sub) => endingOf <$> runSubmissionStdin dir sub
  | legacy (.error _) _ _ => pure (none, none)
  | legacy (.ok sources) compileCmd memoryLimitMb => do
    let answer ← runInContainer dir sources.files compileCmd memoryLimitMb
    pure (answer.err, none)
  | raw (.error _) _ _ => pure (none, none)
  | raw (.ok sources) compileCmd memoryLimitMb => do
    let result ← runRawWithStdin dir sources.files compileCmd memoryLimitMb
    pure (result.execErr, none)

/-- A run on a container: its directory under `/app`, whether it comes from the queue and
so counts as an execution, and whether removing its workspace on the host fails. -/
structure Job where
  dir : String
  counted : Bool := true
  cleanupFailed : Bool := false
  work : Work

/-! ## Release or discard -/

def looksLikeContainerFailure (message : String) : Bool :=
  let msg := Text.toLower message
  Text.contains msg "deadline exceeded" || Text.contains msg "timed out" ||
    Text.contains msg "memory limit exceeded" || Text.contains msg "possibly oom" ||
    Text.contains msg "container unhealthy" || Text.contains msg "stopped container" ||
    Text.contains msg "no such container"

def isPoisonousExecutionError (err : GoError) : Bool :=
  match err.asExecution with
  | some (.errTimeLimitExceeded, _) => true
  | some (.errMemoryLimitExceeded, _) => true
  | some (.errRuntimeError, _) => true
  | some (.errContainerUnhealthy, _) => true
  | some (.errCompilationFailed, message) => looksLikeContainerFailure message
  | _ => looksLikeContainerFailure err.text

def shouldDiscardContainer (ending : Ending) (cleanupFailed : Bool) : Bool :=
  if cleanupFailed then true
  else
    match ending with
    | (some execErr, _) => isPoisonousExecutionError execErr
    | (none, none) => false
    | (none, some result) =>
      result.status = submissionStatusTimeLimitExceeded ||
        result.status = submissionStatusMemoryLimitExceeded ||
        result.internalError = internalErrorWrapper ||
        (result.status = submissionStatusCompilationError &&
          looksLikeContainerFailure result.stderr)

/-- A container with the execution of a job counted. -/
def World.count (w : World) (job : Job) : World :=
  if job.counted then
    { w with container := { w.container with executionCount := w.container.executionCount + 1 } }
  else w

/-- Whether `finishWithContainer` discards: the container has reached
`MaxExecutionsPerContainer`, or the run has poisoned it. -/
def discards (maxExecutions : ℕ) (job : Job) (ending : Ending) (w : World) : Bool :=
  (job.counted && decide (maxExecutions ≤ w.container.executionCount)) ||
    shouldDiscardContainer ending job.cleanupFailed

section Runs

variable (user : ℕ → Outcome) (maxExecutions : ℕ)

/-- A run from the moment when its container was acquired. -/
def execute (w : World) (job : Job) : Except Empty Ending × World :=
  eval (serve user) (w.count job) (job.work.program job.dir)

/-- The runs one after the other on one container, each with the container that it has
released; a discarded container is gone. -/
def releases : World → List Job → List (Job × Container)
  | _, [] => []
  | w, job :: jobs =>
    match execute user w job with
    | (.ok ending, w') =>
      if discards maxExecutions job ending w' then []
      else (job, w'.container) :: releases w' jobs
    | (.error e, _) => nomatch e

end Runs

/-! ## Hygiene -/

/-- **The container shows nothing of the run** in the directory: the memory limit is the
one of the pool, no process of the judge user is alive, and `/tmp` and the directory are
gone. -/
structure Clean (dir : String) (c : Container) : Prop where
  memory : c.memoryMb = 1024
  processes : c.processes = []
  tmp : c.tmp = []
  app : dir ∉ c.app

/-- Every run of the sequence that releases the container leaves it clean. -/
def Hygienic (user : ℕ → Outcome) (maxExecutions : ℕ) (jobs : List Job) : Prop :=
  ∀ r ∈ releases user maxExecutions {} jobs, Clean r.1.dir r.2

/-- The files of the submission cannot be prepared, or its language is not compiled and
there is no test to run. -/
def Submission.Idle (sub : Submission) (noTest : Prop) : Prop :=
  (∃ err, sub.prepareFiles = .error err) ∨ sub.compileCommand = none ∧ noTest

/-- The run has nothing to do in its container. -/
def Work.Idle : Work → Prop
  | perTest sub =>
    sub.Idle (∀ tc ∈ sub.problem.testCases, (tc.payload.marshal matches .error _) = true)
  | batched sub => sub.Idle (payloadFits sub.problem = false)
  | stdin (.error _) => True
  | stdin (.ok sub) =>
    sub.Idle (∀ tc ∈ sub.problem.testCases,
      ((stdinTestInput tc).isNone || (stdinTestExpected tc).isNone) = true)
  | legacy prepareFiles _ _ => ∃ err, prepareFiles = .error err
  | raw prepareFiles _ _ => ∃ err, prepareFiles = .error err

/-! ## The first request of a run -/

section Pending

variable {α β : Type} {r : Request} {dir : String}

theorem pending_bind {p : Task α} (h : p.pending = some r) (f : α → Task β) :
    (p >>= f).pending = some r := by
  cases p with
  | done a => cases h
  | fail e => cases h
  | ask r' next => exact h

theorem pending_map {p : Task α} (h : p.pending = some r) (f : α → β) :
    (f <$> p).pending = some r := pending_bind h _

variable {files : List String} (hfiles : files ≠ []) {compileCmd : List String} {memoryLimitMb : ℤ}

include hfiles in
theorem pending_copyFilesToContainer :
    (copyFilesToContainer dir files).pending = some (.copyFiles dir) := by
  unfold copyFilesToContainer
  rw [if_neg hfiles]
  rfl

include hfiles in
theorem pending_compileAndRun :
    (compileAndRun dir files compileCmd memoryLimitMb).pending = some (.copyFiles dir) :=
  pending_bind (pending_copyFilesToContainer hfiles) _

include hfiles in
theorem pending_compileInContainer :
    (compileInContainer dir files compileCmd memoryLimitMb).pending = some (.copyFiles dir) :=
  pending_bind (pending_copyFilesToContainer hfiles) _

end Pending

section FirstRequest

variable {dir : String}

/-- A loop that skips every test asks nothing. -/
theorem testExecs_of_skipped {skip : TestCase → Bool} (run : Task ExecAnswer)
    {tcs : List TestCase} (h : ∀ tc ∈ tcs, skip tc = true) :
    ∃ answers, testExecs skip run tcs = pure answers := by
  induction tcs with
  | nil => exact ⟨[], rfl⟩
  | cons tc tcs ih =>
    obtain ⟨answers, hanswers⟩ := ih fun tc' htc => h tc' (List.mem_cons_of_mem _ htc)
    refine ⟨noAnswer :: answers, ?_⟩
    rw [testExecs, if_pos (h tc List.mem_cons_self), hanswers]
    rfl

/-- Otherwise it starts with the exec of a test. -/
theorem pending_testExecs {skip : TestCase → Bool} {run : Task ExecAnswer} {r : Request}
    (hrun : run.pending = some r) {tcs : List TestCase} (h : ¬∀ tc ∈ tcs, skip tc = true) :
    (testExecs skip run tcs).pending = some r := by
  induction tcs with
  | nil => exact absurd (fun _ h => nomatch h) h
  | cons tc tcs ih =>
    rw [testExecs]
    by_cases hskip : skip tc = true
    · rw [if_pos hskip]
      have hrest : ¬∀ tc' ∈ tcs, skip tc' = true := fun hall =>
        h (List.forall_mem_cons.mpr ⟨hskip, hall⟩)
      exact pending_bind (ih hrest) _
    · rw [if_neg hskip]
      exact pending_bind hrun _

/-- A submission that compiles copies its files first. -/
theorem pending_compileStep {sub : Submission} {files : List String} (hfiles : files ≠ [])
    {compileCmd : List String} (h : sub.compileCommand = some compileCmd) :
    (compileStep dir sub files).pending = some (.copyFiles dir) := by
  unfold compileStep
  rw [h]
  exact pending_map (pending_compileInContainer hfiles) _

/-- A submission that is not idle has prepared its files, and compiles or has a test. -/
theorem Submission.busy {sub : Submission} {noTest : Prop} (h : ¬sub.Idle noTest) :
    ∃ sources, sub.prepareFiles = .ok sources ∧ (sub.compileCommand = none → ¬noTest) := by
  cases hp : sub.prepareFiles with
  | error err => exact absurd (.inl ⟨err, hp⟩) h
  | ok sources => exact ⟨sources, rfl, fun hc hn => h (.inr ⟨hc, hn⟩)⟩

section Loops

variable {sub : Submission} {skip : TestCase → Bool} {run : List String → Task ExecAnswer}
  (result : Preparation → (ℕ → ExecAnswer) → Except GoError SubmissionResult)

variable (dir) in
theorem compileThenTest_of_idle (h : sub.Idle (∀ tc ∈ sub.problem.testCases, skip tc = true)) :
    ∃ x, compileThenTest dir sub skip run result = pure x := by
  unfold compileThenTest
  rcases h with ⟨err, hp⟩ | ⟨hc, hskip⟩
  · rw [hp]
    exact ⟨_, rfl⟩
  · cases hp : sub.prepareFiles with
    | error err => exact ⟨_, rfl⟩
    | ok sources =>
      obtain ⟨answers, hanswers⟩ :=
        testExecs_of_skipped (run (sub.filesToCopy sources.files)) hskip
      refine ⟨result ⟨none, none⟩ fun i => answers.getD i noAnswer, ?_⟩
      simp only [compileStep, hc]
      show testExecs skip (run (sub.filesToCopy sources.files)) sub.problem.testCases >>= _ = _
      rw [hanswers]
      rfl

/-- The first request of a submission that is not idle copies its files. -/
theorem pending_compileThenTest
    (hrun : ∀ files, files ≠ [] → (run files).pending = some (.copyFiles dir))
    (h : ¬sub.Idle (∀ tc ∈ sub.problem.testCases, skip tc = true)) :
    (compileThenTest dir sub skip run result).pending = some (.copyFiles dir) := by
  obtain ⟨sources, hp, htest⟩ := Submission.busy h
  unfold compileThenTest
  rw [hp]
  cases hc : sub.compileCommand with
  | some compileCmd => exact pending_bind (pending_compileStep sources.nonempty hc) _
  | none =>
    have hfiles : sub.filesToCopy sources.files = sources.files := by
      unfold Submission.filesToCopy
      rw [hc]
      rfl
    simp only [compileStep, hc]
    refine pending_bind (pending_testExecs ?_ (htest hc)) _
    rw [hfiles]
    exact hrun _ sources.nonempty

end Loops

section Batched

variable {sub : Submission}

variable (dir) in
theorem runSubmissionCentralBatched_of_idle (h : sub.Idle (payloadFits sub.problem = false)) :
    ∃ x, runSubmissionCentralBatched dir sub = pure x := by
  unfold runSubmissionCentralBatched
  rcases h with ⟨err, hp⟩ | ⟨hc, hfits⟩
  · rw [hp]
    exact ⟨_, rfl⟩
  · cases hp : sub.prepareFiles with
    | error err => exact ⟨_, rfl⟩
    | ok sources =>
      simp only [compileStep, hc, hfits]
      exact ⟨_, rfl⟩

theorem pending_runSubmissionCentralBatched (h : ¬sub.Idle (payloadFits sub.problem = false)) :
    (runSubmissionCentralBatched dir sub).pending = some (.copyFiles dir) := by
  obtain ⟨sources, hp, htest⟩ := Submission.busy h
  unfold runSubmissionCentralBatched
  rw [hp]
  cases hc : sub.compileCommand with
  | some compileCmd => exact pending_bind (pending_compileStep sources.nonempty hc) _
  | none =>
    have hfits : payloadFits sub.problem = true := by
      have := htest hc
      rwa [Bool.not_eq_false] at this
    have hfiles : sub.filesToCopy sources.files = sources.files := by
      unfold Submission.filesToCopy
      rw [hc]
      rfl
    simp only [compileStep, hc, hfits, if_true, hfiles]
    exact pending_bind (pending_bind (pending_compileAndRun sources.nonempty) _) _

end Batched

variable (dir) in
/-- A run that is idle asks nothing of its container. -/
theorem Work.program_of_idle {work : Work} (h : work.Idle) :
    ∃ ending, work.program dir = pure ending := by
  match work, h with
  | perTest sub, h =>
    obtain ⟨x, hx⟩ := compileThenTest_of_idle dir _ h
    exact ⟨endingOf x, congrArg (endingOf <$> ·) hx⟩
  | batched sub, h =>
    obtain ⟨x, hx⟩ := runSubmissionCentralBatched_of_idle dir h
    exact ⟨endingOf x, congrArg (endingOf <$> ·) hx⟩
  | stdin (.error err), _ => exact ⟨_, rfl⟩
  | stdin (.ok sub), h =>
    obtain ⟨x, hx⟩ := compileThenTest_of_idle dir _ h
    exact ⟨endingOf x, congrArg (endingOf <$> ·) hx⟩
  | legacy (.error err) _ _, _ => exact ⟨_, rfl⟩
  | raw (.error err) _ _, _ => exact ⟨_, rfl⟩

/-- The first request of any other run copies its files. -/
theorem Work.pending_program {work : Work} (h : ¬work.Idle) :
    (work.program dir).pending = some (.copyFiles dir) := by
  match work, h with
  | perTest sub, h =>
    refine pending_map (pending_compileThenTest _ (fun files hfiles => ?_) h) _
    exact pending_bind (pending_compileAndRun hfiles) _
  | batched sub, h => exact pending_map (pending_runSubmissionCentralBatched h) _
  | stdin (.error err), h => exact absurd trivial h
  | stdin (.ok sub), h =>
    refine pending_map (pending_compileThenTest _ (fun files hfiles => ?_) h) _
    exact pending_bind (pending_compileAndRun hfiles) _
  | legacy (.error err) _ _, h => exact absurd ⟨err, rfl⟩ h
  | legacy (.ok sources) _ _, _ =>
    exact pending_bind (pending_bind (pending_compileAndRun sources.nonempty) _) _
  | raw (.error err) _ _, h => exact absurd ⟨err, rfl⟩ h
  | raw (.ok sources) _ _, _ =>
    exact pending_bind (pending_bind (pending_compileAndRun sources.nonempty) _) _

end FirstRequest

/-! ## Directories stay -/

section Evaluation

variable {α : Type} {user : ℕ → Outcome} {dir : String}

/-- No request removes a directory under `/app`. -/
theorem mem_app_serve {w : World} (h : dir ∈ w.container.app) (r : Request) :
    dir ∈ (serve user w r).2.container.app := by
  cases r with
  | copyFiles d => exact List.mem_cons_of_mem _ h
  | setMemory memoryMb => exact h
  | userCommand d => exact h
  | cleanup => exact h

theorem mem_app_eval (p : Task α) {w : World} (h : dir ∈ w.container.app) :
    dir ∈ (eval (serve user) w p).2.container.app := by
  induction p generalizing w with
  | done a => exact h
  | fail e => exact nomatch e
  | ask r next ih => exact ih _ (mem_app_serve h r)

/-- A program that begins by copying files leaves their directory. -/
theorem mem_app_of_pending {p : Task α} (h : p.pending = some (.copyFiles dir)) (w : World) :
    dir ∈ (eval (serve user) w p).2.container.app := by
  cases p with
  | done a => cases h
  | fail e => cases h
  | ask r next =>
    obtain rfl : r = .copyFiles dir := Option.some.inj h
    have hmem : dir ∈ (serve user w (.copyFiles dir)).2.container.app := List.mem_cons_self
    exact mem_app_eval (next (.ok ())) hmem

end Evaluation

/-! ## The condition of hygiene -/

section Sequences

variable {user : ℕ → Outcome} {maxExecutions : ℕ}

/-- A container that no run has touched; only its executions have been counted. -/
def Untouched (c : Container) : Prop := c = { executionCount := c.executionCount }

theorem Untouched.clean {c : Container} (h : Untouched c) (dir : String) : Clean dir c := by
  rw [h]
  exact ⟨rfl, rfl, rfl, fun h => nomatch h⟩

theorem Untouched.count {w : World} (h : Untouched w.container) (job : Job) :
    Untouched (w.count job).container := by
  unfold Untouched at h ⊢
  unfold World.count
  split
  · rw [h]
  · exact h

variable (user) in
/-- A run that is idle leaves its container as it was. -/
theorem execute_of_idle {job : Job} (h : job.work.Idle) (w : World) :
    ∃ ending, execute user w job = (.ok ending, w.count job) := by
  obtain ⟨ending, hending⟩ := Work.program_of_idle job.dir h
  refine ⟨ending, ?_⟩
  unfold execute
  rw [hending]
  rfl

/-- A run that is not idle leaves its directory. -/
theorem mem_app_execute {job : Job} (h : ¬job.work.Idle) (w : World) :
    job.dir ∈ (execute user w job).2.container.app :=
  mem_app_of_pending (Work.pending_program h) _

/-- A release is the end of a run. -/
theorem exists_of_mem_releases {jobs : List Job} {w : World} {r : Job × Container}
    (h : r ∈ releases user maxExecutions w jobs) :
    ∃ v, r.2 = (execute user v r.1).2.container := by
  induction jobs generalizing w with
  | nil => exact nomatch h
  | cons job jobs ih =>
    rw [releases] at h
    generalize hexec : execute user w job = x at h
    obtain ⟨e | ending, w'⟩ := x
    · exact nomatch e
    · simp only at h
      split at h
      · exact nomatch h
      · rcases List.mem_cons.mp h with rfl | h
        · exact ⟨w, by rw [hexec]⟩
        · exact ih h

/-- As long as the runs that release the container are idle, it is untouched. -/
theorem untouched_of_idle {jobs : List Job} {w : World} (hw : Untouched w.container)
    (hidle : ∀ r ∈ releases user maxExecutions w jobs, r.1.work.Idle) :
    ∀ r ∈ releases user maxExecutions w jobs, Untouched r.2 := by
  induction jobs generalizing w with
  | nil => exact fun _ h => nomatch h
  | cons job jobs ih =>
    rw [releases] at hidle ⊢
    generalize hexec : execute user w job = x at hidle ⊢
    obtain ⟨e | ending, w'⟩ := x
    · exact nomatch e
    · simp only at hidle ⊢
      split at hidle
      · rename_i hdiscard
        rw [if_pos hdiscard]
        exact fun _ h => nomatch h
      · rename_i hkeep
        rw [if_neg hkeep]
        obtain ⟨hjob, hrest⟩ := List.forall_mem_cons.mp hidle
        obtain ⟨ending', hexec'⟩ := execute_of_idle user hjob w
        obtain rfl : w.count job = w' := by
          rw [hexec] at hexec'
          exact (Prod.ext_iff.mp hexec').2.symm
        exact List.forall_mem_cons.mpr ⟨hw.count job, ih (hw.count job) hrest⟩

end Sequences

/-- **Hygiene fails after every run that has used its container**: the runs on a container
leave it clean at each release exactly when each of those that release it was idle. -/
theorem hygienic_iff (user : ℕ → Outcome) (maxExecutions : ℕ) (jobs : List Job) :
    Hygienic user maxExecutions jobs ↔
      ∀ r ∈ releases user maxExecutions {} jobs, r.1.work.Idle := by
  constructor
  · intro h r hr
    by_contra hidle
    obtain ⟨v, hv⟩ := exists_of_mem_releases hr
    refine (h r hr).app ?_
    rw [hv]
    exact mem_app_execute hidle v
  · intro h r hr
    have hnew : Untouched ({} : World).container := rfl
    exact (untouched_of_idle hnew h r hr).clean r.1.dir

/-- A raw run in Kotlin with a limit of 256 MiB. -/
def rawInKotlin : Job where
  dir := "sub-raw-1-2"
  counted := false
  work := .raw (.ok ⟨["Main.kt"], by decide⟩) ["kotlinc", "-d", "/app/out", "/app/Main.kt"] 256

/-- The compiler reports an error, and leaves a daemon and a file in `/tmp`. -/
def doesNotCompile : ℕ → Outcome := fun _ =>
  { stderr := "error: expecting an element"
    ended := .exited 1
    processes := ["kotlin-daemon"]
    tmp := ["kotlin-daemon.log"] }

/-- After a compilation that has failed the container is released with the memory limit,
the processes and the files of the run. -/
theorem rawInKotlin_not_hygienic :
    ¬∀ (user : ℕ → Outcome) (maxExecutions : ℕ) (jobs : List Job),
      Hygienic user maxExecutions jobs := by
  intro h
  have hreleases : (releases doesNotCompile 100 {} [rawInKotlin]).map Prod.snd =
      [{ memoryMb := 2048, processes := ["kotlin-daemon"], tmp := ["kotlin-daemon.log"]
         app := ["sub-raw-1-2"] }] := by
    decide +kernel
  obtain ⟨r, hr, hc⟩ := List.mem_map.mp (hreleases ▸ List.mem_singleton_self _)
  have hmemory := (h doesNotCompile 100 [rawInKotlin] r hr).memory
  rw [hc] at hmemory
  exact absurd hmemory (by decide)

/-! ## What the clean-up achieves -/

section CleanUp

variable {user : ℕ → Outcome} {w : World} {dir : String} {files compileCmd : List String}
  {memoryLimitMb : ℤ}

theorem eval_bind_of_eq {α β : Type} {p : Task α} {a : α} {v : World}
    (h : eval (serve user) w p = (.ok a, v)) (f : α → Task β) :
    eval (serve user) w (p >>= f) = eval (serve user) v (f a) := by
  rw [eval_bind, h]

variable (user w dir files compileCmd memoryLimitMb) in
/-- Copying the files and limiting the compile step, before whatever comes next. -/
theorem eval_prepared :
    ∃ v : World, (∀ {α : Type} (p : Task α), eval (serve user) w
        (copyFilesToContainer dir files >>= fun _ =>
          limitCompilation compileCmd memoryLimitMb >>= fun _ => p) = eval (serve user) v p) ∧
      v.container.memoryMb =
        (if 0 < memoryLimitMb then max memoryLimitMb (compilationMemoryFloorMb compileCmd)
        else w.container.memoryMb) ∧ v.commands = w.commands := by
  obtain ⟨u, hcopy, hmemory, hcommands⟩ : ∃ u : World,
      eval (serve user) w (copyFilesToContainer dir files) = (.ok (), u) ∧
      u.container.memoryMb = w.container.memoryMb ∧ u.commands = w.commands := by
    unfold copyFilesToContainer
    split
    · exact ⟨w, rfl, rfl, rfl⟩
    · exact ⟨_, rfl, rfl, rfl⟩
  by_cases h : 0 < memoryLimitMb
  · have hmax : 0 < max memoryLimitMb (compilationMemoryFloorMb compileCmd) := lt_max_of_lt_left h
    refine ⟨(serve user u (.setMemory (max memoryLimitMb
      (compilationMemoryFloorMb compileCmd)))).2, ?_, (if_pos h).symm, hcommands⟩
    intro α p
    rw [eval_bind_of_eq hcopy]
    unfold limitCompilation updateContainerResources
    rw [if_pos h, if_neg (not_le.mpr hmax)]
    rfl
  · refine ⟨u, ?_, hmemory.trans (if_neg h).symm, hcommands⟩
    intro α p
    rw [eval_bind_of_eq hcopy]
    unfold limitCompilation
    rw [if_neg h]
    rfl

variable (user w dir memoryLimitMb) in
/-- **The run of a program is cleaned up**: its processes and its names in `/tmp` are gone,
up to the hidden ones, and the memory limit is back. -/
theorem eval_runAndCleanUp :
    ∃ run, eval (serve user) w (runAndCleanUp dir memoryLimitMb) =
      (.ok run,
        { container := { w.container with
            memoryMb := if 0 < memoryLimitMb then 1024 else w.container.memoryMb
            processes := []
            tmp := (user w.commands).tmp.filter isHidden }
          commands := w.commands + 1 }) := by
  unfold runAndCleanUp updateContainerResources
  by_cases h : 0 < memoryLimitMb
  · simp only [if_pos h, if_neg (not_le.mpr h)]
    exact ⟨_, rfl⟩
  · simp only [if_neg h]
    exact ⟨_, rfl⟩

/-- The state of a container between two runs, as far as the executor cares for it. -/
structure Tidy (c : Container) : Prop where
  memory : c.memoryMb = 1024
  processes : c.processes = []
  tmp : ∀ name ∈ c.tmp, isHidden name = true

/-- **An exec that reaches the program leaves a tidy container**, and one whose compile
command fails leaves all that the command has left, under the limit of the compile step. -/
theorem eval_compileAndRun (hw : w.container.memoryMb = 1024) :
    match eval (serve user) w (compileAndRun dir files compileCmd memoryLimitMb) with
    | (.ok (.ok _), v) => Tidy v.container
    | (.ok (.error _), v) =>
      v.container.memoryMb =
          (if 0 < memoryLimitMb then max memoryLimitMb (compilationMemoryFloorMb compileCmd)
          else 1024) ∧
        v.container.processes = (user w.commands).processes ∧
        v.container.tmp = (user w.commands).tmp
    | (.error _, _) => False := by
  obtain ⟨v, hprepared, hmemory, hcommands⟩ :=
    eval_prepared user w dir files compileCmd memoryLimitMb
  rw [hw] at hmemory
  -- the run comes last, and its limit is reset if it was changed
  have hrun : ∀ v : World, (¬0 < memoryLimitMb → v.container.memoryMb = 1024) → ∃ run u,
      eval (serve user) v (runAndCleanUp dir memoryLimitMb >>= fun run =>
        pure (.ok run : Except (Exec × GoError) Exec)) = (.ok (.ok run), u) ∧
      Tidy u.container := by
    intro v hv
    obtain ⟨run, hrun⟩ := eval_runAndCleanUp user v dir memoryLimitMb
    refine ⟨run, _, eval_bind_of_eq hrun _, ?_, rfl, ?_⟩
    · by_cases h : 0 < memoryLimitMb
      · exact if_pos h
      · exact (if_neg h).trans (hv h)
    · exact fun name hname => (List.mem_filter.mp hname).2
  unfold compileAndRun
  rw [hprepared]
  by_cases hcmd : compileCmd = []
  · rw [if_pos hcmd]
    obtain ⟨run, u, heval, htidy⟩ := hrun v fun h => hmemory.trans (if_neg h)
    rw [heval]
    exact htidy
  · rw [if_neg hcmd]
    obtain ⟨u, hcompile, hlimit, hprocesses, htmp⟩ : ∃ u : World,
        eval (serve user) v (userCommand dir) = (.ok ⟨(user v.commands).stdout,
          (user v.commands).stderr, (user v.commands).ended.toExecEnd⟩, u) ∧
        u.container.memoryMb = v.container.memoryMb ∧
        u.container.processes = (user v.commands).processes ∧
        u.container.tmp = (user v.commands).tmp := ⟨_, rfl, rfl, rfl, rfl⟩
    rw [hcommands] at hcompile hprocesses htmp
    rw [eval_bind_of_eq hcompile]
    cases herr : (execResult (user w.commands).ended.toExecEnd).2 with
    | none =>
      simp only
      obtain ⟨run, u', heval, htidy⟩ := hrun u fun h => hlimit.trans (hmemory.trans (if_neg h))
      rw [heval]
      exact htidy
    | some err =>
      simp only
      exact ⟨hlimit.trans hmemory, hprocesses, htmp⟩

end CleanUp

end Hygiene
