/-
# What the words of a compiler decide

A compile command that fails by itself says nothing against its container.  The judge
puts what the command has printed into the text of its error, though, and then searches
this text for the signs of a broken container; what a compiler prints quotes the code of
the user.

* `Alarming` : a text with one of the seven signs.
* `discardsAfter_of_compileFails` : the decision on the container after a compile command
  that has failed, the same in the five kinds of runs that compile.
* `same_decision_iff` : when two runs that differ in the printed texts decide alike.
-/
import JudgePlatform.Judge.Hygiene
import JudgePlatform.Library.Searching

namespace Hygiene

open Judge RawRuns Program

/-! ## The signs -/

/-- The phrases that `looksLikeContainerFailure` searches for. -/
def keyPhrases : List String :=
  ["deadline exceeded", "timed out", "memory limit exceeded", "possibly oom",
    "container unhealthy", "stopped container", "no such container"]

/-- The text contains one of the phrases, in any case. -/
def Alarming (text : String) : Prop :=
  ∃ phrase ∈ keyPhrases, Text.contains (Text.toLower text) phrase = true

instance : DecidablePred Alarming := fun _ =>
  inferInstanceAs (Decidable (∃ phrase ∈ keyPhrases, _))

theorem looksLikeContainerFailure_iff (text : String) :
    looksLikeContainerFailure text = true ↔ Alarming text := by
  simp [looksLikeContainerFailure, Alarming, keyPhrases, or_assoc]

/-- A separator that no phrase reaches into passes the search on to the two parts. -/
theorem alarming_separated {sep : String} (hlower : Text.toLower sep = sep)
    (hsep : ∀ phrase ∈ keyPhrases, Text.Separates sep.toList phrase.toList) (s t : String) :
    Alarming (s ++ sep ++ t) ↔ Alarming s ∨ Alarming t := by
  have hphrase : ∀ phrase ∈ keyPhrases, (Text.contains (Text.toLower (s ++ sep ++ t)) phrase = true ↔
      Text.contains (Text.toLower s) phrase = true ∨
        Text.contains (Text.toLower t) phrase = true) := by
    intro phrase hmem
    rw [Text.toLower_append, Text.toLower_append, hlower, Text.contains_separated (hsep phrase hmem),
      Bool.or_eq_true]
  constructor
  · rintro ⟨phrase, hmem, h⟩
    rcases (hphrase phrase hmem).mp h with h | h
    · exact Or.inl ⟨phrase, hmem, h⟩
    · exact Or.inr ⟨phrase, hmem, h⟩
  · rintro (⟨phrase, hmem, h⟩ | ⟨phrase, hmem, h⟩)
    · exact ⟨phrase, hmem, (hphrase phrase hmem).mpr (Or.inl h)⟩
    · exact ⟨phrase, hmem, (hphrase phrase hmem).mpr (Or.inr h)⟩

theorem alarming_trimSpace (s : String) : Alarming (Text.trimSpace s) ↔ Alarming s := by
  have hends : ∀ phrase ∈ keyPhrases, phrase ≠ "" ∧
      phrase.toList.head?.any Text.isSpace = false ∧
      phrase.toList.getLast?.any Text.isSpace = false := by
    decide +kernel
  apply exists_congr
  intro phrase
  apply and_congr_right
  intro hmem
  obtain ⟨hne, hhead, hlast⟩ := hends phrase hmem
  rw [Text.contains_trimSpace hne hhead hlast]

/-- No phrase ends in a digit. -/
theorem not_alarming_itoa {pre : String} (hpre : ¬Alarming pre) (n : ℤ) :
    ¬Alarming (pre ++ Text.itoa n) := by
  have hends : ∀ phrase ∈ keyPhrases, phrase.toList ≠ [] ∧
      phrase.toList.getLast?.any (fun c => c = '-' || c.isDigit) = false := by
    decide +kernel
  rintro ⟨phrase, hmem, h⟩
  obtain ⟨hne, hlast⟩ := hends phrase hmem
  rw [List.getLast?_eq_some_getLast hne, Option.any_some, Bool.or_eq_false_iff,
    decide_eq_false_iff_not] at hlast
  obtain ⟨hminus, hdigit⟩ := hlast
  rw [Text.contains_append_itoa n (List.dropLast_append_getLast hne).symm hminus hdigit] at h
  · cases h
  · rw [Bool.eq_false_iff]
    exact fun h => hpre ⟨phrase, hmem, h⟩

/-! ## The error of a compile command -/

/-- The error of a command that ends with an exit code of its own. -/
def exitError (exitCode : ℤ) : GoError :=
  .execution .errRuntimeError ("exit code " ++ Text.itoa exitCode) exitCode

theorem text_execution {type : GoError} {message : String} (h : message ≠ "") (exitCode : ℤ) :
    (GoError.execution type message exitCode).text = type.text ++ ": " ++ message := by
  rw [GoError.text, if_pos h]

theorem text_exitError (exitCode : ℤ) :
    (exitError exitCode).text = "runtime error: exit code " ++ Text.itoa exitCode := by
  have hne : "exit code " ++ Text.itoa exitCode ≠ "" := by
    intro h
    have := congrArg String.toList h
    rw [String.toList_append] at this
    exact absurd this (by simp)
  unfold exitError
  rw [text_execution hne, ← String.append_assoc]
  rfl

theorem not_alarming_exitError (exitCode : ℤ) : ¬Alarming (exitError exitCode).text := by
  rw [text_exitError]
  exact not_alarming_itoa (by decide +kernel) exitCode

/-- The error of `CompileInContainer`. -/
def compileFailure (exitCode : ℤ) : GoError :=
  .execution .errCompilationFailed (exitError exitCode).text (-1)

theorem not_alarming_compileFailure (exitCode : ℤ) : ¬Alarming (compileFailure exitCode).text := by
  have hne : (exitError exitCode).text ≠ "" := by
    intro h
    have := congrArg String.toList (text_exitError exitCode ▸ h)
    rw [String.toList_append] at this
    exact absurd this (by simp)
  unfold compileFailure
  rw [text_execution hne, text_exitError, ← String.append_assoc]
  exact not_alarming_itoa (by decide +kernel) exitCode

/-- What the judge puts between the parts of the text of an error. -/
def separators : List String := [" | ", " | stdout=", " | stderr=", " stderr="]

/-- No phrase reaches into one of the separators. -/
theorem alarming_joined {sep : String} (hsep : sep ∈ separators) (s t : String) :
    Alarming (s ++ sep ++ t) ↔ Alarming s ∨ Alarming t := by
  have hlower : ∀ sep ∈ separators, Text.toLower sep = sep := by decide +kernel
  have hclear : ∀ sep ∈ separators, ∀ phrase ∈ keyPhrases,
      Text.Separates sep.toList phrase.toList := by
    decide +kernel
  exact alarming_separated (hlower sep hsep) (hclear sep hsep) s t

/-- A printed text is left out when it is blank. -/
theorem alarming_part {sep : String} (hsep : sep ∈ separators) (msg text : String) :
    Alarming (if Text.trimSpace text ≠ "" then msg ++ sep ++ Text.trimSpace text else msg) ↔
      Alarming msg ∨ Alarming text := by
  rw [← alarming_trimSpace text]
  split_ifs with hblank
  · exact alarming_joined hsep _ _
  · have hempty : ¬Alarming "" := by decide +kernel
    rw [not_not] at hblank
    rw [hblank, or_iff_left hempty]

/-- `compileCentralSubmission` keeps the type and the message of the error, and its text has
the printed texts for parts. -/
theorem compileCentralSubmission_of_err (answer : ExecAnswer) {err : GoError}
    (herr : answer.err = some err) (hquiet : ¬Alarming err.text) :
    ∃ err', compileCentralSubmission (some answer) = some err' ∧
      err'.asExecution = err.asExecution ∧
      (Alarming err'.text ↔ Alarming answer.stdout ∨ Alarming answer.stderr) := by
  have hbar : " | " ∈ separators := by simp [separators]
  have hstdout : " | stdout=" ∈ separators := by simp [separators]
  have hstderr : " | stderr=" ∈ separators := by simp [separators]
  obtain ⟨stdout, stderr, _⟩ := answer
  subst herr
  refine ⟨_, rfl, rfl, ?_⟩
  rw [GoError.text, String.empty_append, ← String.append_assoc, alarming_joined hbar,
    or_iff_right hquiet, alarming_part hstderr, alarming_part hstdout, or_iff_right hquiet]

/-- The message of `compileError` has the printed texts for parts. -/
theorem alarming_compileError {compile : Exec} {err : GoError} (hquiet : ¬Alarming err.text) :
    Alarming (err.text ++ " | stdout=" ++ compile.stdout ++ " stderr=" ++ compile.stderr) ↔
      Alarming compile.stdout ∨ Alarming compile.stderr := by
  have hstdout : " | stdout=" ∈ separators := by simp [separators]
  have hstderr : " stderr=" ∈ separators := by simp [separators]
  rw [alarming_joined hstderr, alarming_joined hstdout, or_iff_right hquiet]

/-! ## Runs with a compile command that fails -/

/-- The files of the submission are prepared, and its language is compiled. -/
def Submission.Compiles (sub : Submission) : Prop :=
  (∃ sources, sub.prepareFiles = .ok sources) ∧ ∃ compileCmd, sub.compileCommand = some compileCmd

/-- The run has a compile step. -/
def Work.Compiles : Work → Prop
  | perTest sub => sub.Compiles
  | batched sub => sub.Compiles
  | stdin (.error _) => False
  | stdin (.ok sub) => sub.Compiles
  | legacy prepareFiles compileCmd _ => (∃ sources, prepareFiles = .ok sources) ∧ compileCmd ≠ []
  | raw prepareFiles compileCmd _ => (∃ sources, prepareFiles = .ok sources) ∧ compileCmd ≠ []

/-- **The compile command of the run fails by itself**: it ends with an exit code that is
neither a success nor the sign of a kill, before any timeout. -/
structure CompileFails (user : ℕ → Outcome) (w : World) (job : Job) (exitCode : ℤ) : Prop where
  compiles : job.work.Compiles
  ended : (user w.commands).ended = .exited exitCode
  nonzero : exitCode ≠ 0
  notKilled : exitCode ≠ 137

/-- Whether the container is discarded after the run. -/
def discardsAfter (user : ℕ → Outcome) (maxExecutions : ℕ) (w : World) (job : Job) : Bool :=
  match execute user w job with
  | (.ok ending, w') => discards maxExecutions job ending w'
  | (.error e, _) => nomatch e

section CompileFails

variable {user : ℕ → Outcome} {w : World} {exitCode : ℤ} (dir : String)
  (files : List String) {compileCmd : List String} (memoryLimitMb : ℤ)

/-- No request changes the number of executions. -/
theorem executionCount_eval {α : Type} (p : Task α) (w : World) :
    (eval (serve user) w p).2.container.executionCount = w.container.executionCount := by
  induction p generalizing w with
  | done a => rfl
  | fail e => rfl
  | ask r next ih =>
    rw [eval, ih]
    cases r <;> rfl

theorem execResult_exited (hnonzero : exitCode ≠ 0) (hkill : exitCode ≠ 137) :
    (execResult (UserEnd.exited exitCode).toExecEnd).2 = some (exitError exitCode) := by
  unfold UserEnd.toExecEnd execResult execWaitResult
  simp only [if_pos hnonzero, if_neg hkill]
  rfl

theorem eval_compileInContainer (compileCmd : List String)
    (hended : (user w.commands).ended = .exited exitCode) (hnonzero : exitCode ≠ 0)
    (hkill : exitCode ≠ 137) :
    ∃ v, eval (serve user) w (compileInContainer dir files compileCmd memoryLimitMb) =
      (.ok ⟨(user w.commands).stdout, (user w.commands).stderr, some (compileFailure exitCode)⟩,
        v) := by
  obtain ⟨v, hprepared, -, hcommands⟩ := eval_prepared user w dir files compileCmd memoryLimitMb
  have hcommand : eval (serve user) v (userCommand dir) =
      (.ok ⟨(user v.commands).stdout, (user v.commands).stderr,
        (user v.commands).ended.toExecEnd⟩, (serve user v (.userCommand dir)).2) := rfl
  unfold compileInContainer
  rw [hprepared, eval_bind_of_eq hcommand, hcommands, hended, execResult_exited hnonzero hkill]
  exact ⟨_, rfl⟩

/-! ### The ending -/

/-- The ending of a run blames its container for the words of the compiler only. -/
def Blames (ending : Ending) (stdout stderr : String) : Prop :=
  ∀ cleanupFailed, shouldDiscardContainer ending cleanupFailed = true ↔
    cleanupFailed = true ∨ Alarming stdout ∨ Alarming stderr

theorem blames_finalizeExecutionFailure {err : GoError} {message stdout stderr : String}
    (herr : err.asExecution = some (.errCompilationFailed, message))
    (htext : Alarming err.text ↔ Alarming stdout ∨ Alarming stderr) (clock : Clock) :
    Blames (endingOf (.ok (finalizeExecutionFailure (startedResult clock) err clock)))
      stdout stderr := by
  have hfailure : fallbackResultForExecutionFailure executionPathCentral (some err) "" =
      { newSubmissionResult with
        executionPath := executionPathCentral
        status := submissionStatusCompilationError } := by
    unfold fallbackResultForExecutionFailure
    simp only [Option.bind_some, herr]
    rfl
  intro cleanupFailed
  rw [← htext, ← looksLikeContainerFailure_iff]
  unfold finalizeExecutionFailure endingOf shouldDiscardContainer
  rw [hfailure]
  cases cleanupFailed with
  | true => simp
  | false =>
    simp only [SubmissionResult.finish]
    -- a compile error is none of the results that retire a container by themselves
    have htimeout : submissionStatusCompilationError ≠ submissionStatusTimeLimitExceeded := by decide
    have hmemory : submissionStatusCompilationError ≠ submissionStatusMemoryLimitExceeded := by decide
    have hwrapper : newSubmissionResult.internalError ≠ internalErrorWrapper := by decide
    simp [htimeout, hmemory, hwrapper]

theorem blames_compileError {compile : Exec} (exitCode : ℤ) :
    Blames (some (compileError compile (exitError exitCode)), none) compile.stdout
      compile.stderr := by
  intro cleanupFailed
  rw [← alarming_compileError (not_alarming_exitError exitCode), ← looksLikeContainerFailure_iff]
  cases cleanupFailed with
  | true => simp [shouldDiscardContainer]
  | false => simp [shouldDiscardContainer, isPoisonousExecutionError, compileError,
      GoError.asExecution]

/-! ### The five kinds of runs -/

theorem eval_compileStep {sub : Submission} (hsub : sub.Compiles)
    (hended : (user w.commands).ended = .exited exitCode) (hnonzero : exitCode ≠ 0)
    (hkill : exitCode ≠ 137) :
    ∃ answer err message v, eval (serve user) w (compileStep dir sub files) = (.ok answer, v) ∧
      compileCentralSubmission answer = some err ∧
      err.asExecution = some (.errCompilationFailed, message) ∧
      (Alarming err.text ↔
        Alarming (user w.commands).stdout ∨ Alarming (user w.commands).stderr) := by
  obtain ⟨-, compileCmd, hcommand⟩ := hsub
  obtain ⟨v, hcompile⟩ := eval_compileInContainer dir files sub.problem.memoryLimitMb compileCmd
    hended hnonzero hkill
  obtain ⟨err, herr, hexecution, htext⟩ := compileCentralSubmission_of_err
    ⟨(user w.commands).stdout, (user w.commands).stderr, _⟩ rfl
    (not_alarming_compileFailure exitCode)
  refine ⟨_, err, (exitError exitCode).text, v, ?_, herr, hexecution, htext⟩
  unfold compileStep
  rw [hcommand]
  exact eval_bind_of_eq hcompile _

theorem eval_compileThenTest {sub : Submission} (hsub : sub.Compiles)
    (hended : (user w.commands).ended = .exited exitCode) (hnonzero : exitCode ≠ 0)
    (hkill : exitCode ≠ 137) (skip : TestCase → Bool) (run : List String → Task ExecAnswer)
    (result : Preparation → (ℕ → ExecAnswer) → Except GoError SubmissionResult)
    (hresult : ∀ compile err run, compileCentralSubmission compile = some err →
      result ⟨none, compile⟩ run =
        .ok (finalizeExecutionFailure (startedResult sub.clock) err sub.clock)) :
    ∃ answer v, eval (serve user) w (compileThenTest dir sub skip run result) = (.ok answer, v) ∧
      Blames (endingOf answer) (user w.commands).stdout (user w.commands).stderr := by
  obtain ⟨sources, hsources⟩ := hsub.1
  obtain ⟨answer, err, message, v, hstep, hcompile, herr, htext⟩ :=
    eval_compileStep dir sources.files hsub hended hnonzero hkill
  refine ⟨_, v, ?_, blames_finalizeExecutionFailure herr htext sub.clock⟩
  unfold compileThenTest
  rw [hsources]
  simp only
  rw [eval_bind_of_eq hstep, hcompile]
  simp only
  rw [hresult answer err _ hcompile]
  rfl

theorem eval_runSubmissionCentralBatched {sub : Submission} (hsub : sub.Compiles)
    (hended : (user w.commands).ended = .exited exitCode) (hnonzero : exitCode ≠ 0)
    (hkill : exitCode ≠ 137) :
    ∃ answer v, eval (serve user) w (runSubmissionCentralBatched dir sub) = (.ok answer, v) ∧
      Blames (endingOf answer) (user w.commands).stdout (user w.commands).stderr := by
  obtain ⟨sources, hsources⟩ := hsub.1
  obtain ⟨answer, err, message, v, hstep, hcompile, herr, htext⟩ :=
    eval_compileStep dir sources.files hsub hended hnonzero hkill
  refine ⟨_, v, ?_, blames_finalizeExecutionFailure herr htext sub.clock⟩
  unfold runSubmissionCentralBatched
  rw [hsources]
  simp only
  rw [eval_bind_of_eq hstep, hcompile]
  simp only [Judge.runSubmissionCentralBatched, hcompile]
  rfl

/-- The two paths that compile and run in one command. -/
theorem eval_compileAndRun_of_failure (hcmd : compileCmd ≠ [])
    (hended : (user w.commands).ended = .exited exitCode) (hnonzero : exitCode ≠ 0)
    (hkill : exitCode ≠ 137) :
    ∃ compile v, eval (serve user) w (compileAndRun dir files compileCmd memoryLimitMb) =
        (.ok (.error (compile, exitError exitCode)), v) ∧
      Blames (some (compileError compile (exitError exitCode)), none) (user w.commands).stdout
        (user w.commands).stderr := by
  obtain ⟨v, hprepared, -, hcommands⟩ := eval_prepared user w dir files compileCmd memoryLimitMb
  have hcommand : eval (serve user) v (userCommand dir) =
      (.ok ⟨(user v.commands).stdout, (user v.commands).stderr,
        (user v.commands).ended.toExecEnd⟩, (serve user v (.userCommand dir)).2) := rfl
  unfold compileAndRun
  -- the compiler is the first command of the run
  rw [hprepared, if_neg hcmd, eval_bind_of_eq hcommand, hcommands, hended]
  simp only [execResult_exited hnonzero hkill]
  exact ⟨_, _, rfl, blames_compileError exitCode⟩

/-- **The ending of a run whose compile command fails by itself** blames the container for
the printed words only, on each of the five paths. -/
theorem execute_of_compileFails {job : Job} (h : CompileFails user w job exitCode) :
    ∃ ending v, execute user w job = (.ok ending, v) ∧
      Blames ending (user w.commands).stdout (user w.commands).stderr := by
  obtain ⟨dir, counted, cleanupFailed, work⟩ := job
  obtain ⟨hcompiles, hended, hnonzero, hkill⟩ := h
  unfold execute
  generalize hcount : w.count ⟨dir, counted, cleanupFailed, work⟩ = u
  -- counting the execution starts no command
  have hcommands : u.commands = w.commands := by
    rw [← hcount]
    unfold World.count
    split <;> rfl
  rw [← hcommands] at hended ⊢
  match work, hcompiles with
  | .perTest sub, hsub =>
    obtain ⟨answer, v, heval, hblames⟩ := eval_compileThenTest dir hsub hended hnonzero
      hkill _ _ (Judge.runSubmissionCentralPerTest sub.problem sub.clock) (by
        intro compile err run hcompile
        simp only [Judge.runSubmissionCentralPerTest, hcompile])
    exact ⟨_, v, eval_bind_of_eq heval _, hblames⟩
  | .batched sub, hsub =>
    obtain ⟨answer, v, heval, hblames⟩ :=
      eval_runSubmissionCentralBatched dir hsub hended hnonzero hkill
    exact ⟨_, v, eval_bind_of_eq heval _, hblames⟩
  | .stdin (.ok sub), hsub =>
    obtain ⟨answer, v, heval, hblames⟩ := eval_compileThenTest dir hsub hended hnonzero
      hkill _ _ (Judge.runSubmissionStdin sub.problem sub.clock) (by
        intro compile err run hcompile
        simp only [Judge.runSubmissionStdin, hcompile])
    exact ⟨_, v, eval_bind_of_eq heval _, hblames⟩
  | .legacy (.ok sources) compileCmd memoryLimitMb, ⟨_, hcmd⟩ =>
    obtain ⟨compile, v, heval, hblames⟩ := eval_compileAndRun_of_failure dir sources.files
      memoryLimitMb hcmd hended hnonzero hkill
    refine ⟨_, v, eval_bind_of_eq (eval_bind_of_eq heval _) _, ?_⟩
    exact hblames
  | .raw (.ok sources) compileCmd memoryLimitMb, ⟨_, hcmd⟩ =>
    obtain ⟨compile, v, heval, hblames⟩ := eval_compileAndRun_of_failure dir sources.files
      memoryLimitMb hcmd hended hnonzero hkill
    refine ⟨_, v, eval_bind_of_eq (eval_bind_of_eq heval _) _, ?_⟩
    exact hblames

/-- **The decision after a compile command that fails by itself**: the container has had its
executions, its workspace was not removed, or the compiler has printed one of the phrases. -/
theorem discardsAfter_of_compileFails {job : Job} (h : CompileFails user w job exitCode)
    (maxExecutions : ℕ) :
    discardsAfter user maxExecutions w job = true ↔
      (job.counted = true ∧ maxExecutions ≤ (w.count job).container.executionCount ∨
          job.cleanupFailed = true) ∨
        Alarming (user w.commands).stdout ∨ Alarming (user w.commands).stderr := by
  obtain ⟨ending, v, hexecute, hblames⟩ := execute_of_compileFails h
  have hcount : v.container.executionCount = (w.count job).container.executionCount := by
    have := @executionCount_eval user _ (job.work.program job.dir) (w.count job)
    unfold execute at hexecute
    rwa [hexecute] at this
  unfold discardsAfter discards
  rw [hexecute]
  simp only
  rw [Bool.or_eq_true, Bool.and_eq_true, decide_eq_true_eq, hblames, hcount, or_assoc]

end CompileFails

/-! ## Two runs with different words -/

/-- **The words of the compiler retire the container**: two runs that differ in what their
compile command prints, and in which it fails with the same exit code, lead to the same
decision exactly when something else retires the container anyway, or a phrase is printed
in both or in neither. -/
theorem same_decision_iff {user user' : ℕ → Outcome} {w : World} {job : Job} {exitCode : ℤ}
    (h : CompileFails user w job exitCode) (h' : CompileFails user' w job exitCode)
    (maxExecutions : ℕ) :
    discardsAfter user maxExecutions w job = discardsAfter user' maxExecutions w job ↔
      (job.counted = true ∧ maxExecutions ≤ (w.count job).container.executionCount ∨
          job.cleanupFailed = true) ∨
        ((Alarming (user w.commands).stdout ∨ Alarming (user w.commands).stderr) ↔
          (Alarming (user' w.commands).stdout ∨ Alarming (user' w.commands).stderr)) := by
  rw [Bool.eq_iff_iff, discardsAfter_of_compileFails h, discardsAfter_of_compileFails h']
  constructor
  · intro hsame
    by_cases hanyway : job.counted = true ∧ maxExecutions ≤ (w.count job).container.executionCount ∨
        job.cleanupFailed = true
    · exact Or.inl hanyway
    · rw [or_iff_right hanyway, or_iff_right hanyway] at hsame
      exact Or.inr hsame
  · rintro (hanyway | hsame)
    · exact iff_of_true (Or.inl hanyway) (Or.inl hanyway)
    · rw [hsame]

/-- A submission in C, with one exec for each test. -/
def submissionInC : Job where
  dir := "sub-1-2"
  work := .perTest
    { problem := {}
      clock := ⟨0, 0, fun _ => 0⟩
      prepareFiles := .ok ⟨["main.c"], by decide⟩
      compileCommand := some ["gcc", "-o", "/app/main", "/app/main.c", "-ljson-c", "-lm"] }

/-- The compiler stops at an `#error` directive with this text. -/
def stopsAt (text : String) : ℕ → Outcome := fun _ =>
  { stderr := "main.c:1:2: error: #error " ++ text, ended := .exited 1 }

theorem compileFails_stopsAt (text : String) : CompileFails (stopsAt text) {} submissionInC 1 where
  compiles := ⟨⟨_, rfl⟩, _, rfl⟩
  ended := rfl
  nonzero := by decide
  notKilled := by decide

/-- Two texts without a phrase. -/
theorem same_decision_todo :
    discardsAfter (stopsAt "todo") 100 {} submissionInC =
      discardsAfter (stopsAt "not yet") 100 {} submissionInC :=
  (same_decision_iff (compileFails_stopsAt "todo") (compileFails_stopsAt "not yet") 100).mpr
    (Or.inr (by decide +kernel))

/-- `#error timed out` retires the container, `#error todo` does not. -/
theorem words_retire_container :
    ¬∀ (user user' : ℕ → Outcome) (w : World) (job : Job) (exitCode : ℤ) (maxExecutions : ℕ),
      CompileFails user w job exitCode → CompileFails user' w job exitCode →
      discardsAfter user maxExecutions w job = discardsAfter user' maxExecutions w job := by
  intro h
  have hsame := h (stopsAt "timed out") (stopsAt "todo") {} submissionInC 1 100
    (compileFails_stopsAt "timed out") (compileFails_stopsAt "todo")
  have htimed : discardsAfter (stopsAt "timed out") 100 {} submissionInC = true := by decide +kernel
  have htodo : discardsAfter (stopsAt "todo") 100 {} submissionInC = false := by decide +kernel
  rw [htimed, htodo] at hsame
  cases hsame

end Hygiene
