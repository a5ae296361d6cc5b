/-
# Raw runs

One source file compiled and run on one standard input, without test cases:
`RunRawWithStdin` of `pkg/executor/executor.go`, the answer that `handleRawRun` of
`main.go` makes of it, and the status that `runRawCodeAssess` of
`codeAssessShim.service.js` derives from the answer.

* `runRawWithStdin`, `rawRunResponse` : the two cascades of the judge.
* `runRawCodeAssess` : the cascade of the API.
* `Reported` : the status says what happened.
* `reported_iff` : it does unless the program ends with an exit code of its own
  making, neither 0 nor 137.
-/
import JudgePlatform.Judge.Executor
import JudgePlatform.Library.GoRecord

namespace RawRuns

open Judge JsValue GoRecord

/-! ## The executor -/

/-- What a command in the container has written, and how it ended. -/
structure Exec where
  stdout : String
  stderr : String
  ended : ExecEnd

/-- The exit code and the error of `runExecWithTimeout` and `runExecWithStdin`. -/
def execResult : ExecEnd → ℤ × Option GoError
  | .exited exitCode => execWaitResult (.exited exitCode)
  | .timedOut timeout =>
    (-1, some (.execution .errTimeLimitExceeded ("execution timed out after " ++ timeout) (-1)))
  | .failed err => (-1, some err)

/-- What happens during a raw run: the error of copying the file, the end of the compile
command of a language that has one, and the end of the run once it is reached. -/
structure RawRun where
  copyError : Option GoError
  compile : Option Exec
  run : Exec

/-- What `RunRawWithStdin` returns. -/
structure RawResult where
  stdout : String := ""
  stderr : String := ""
  compileOutput : String := ""
  exitCode : ℤ := -1
  execErr : Option GoError

/-- The output of a compile command that failed. -/
def combined (compile : Exec) : String :=
  if compile.stderr = "" then compile.stdout
  else if compile.stdout = "" then compile.stderr
  else compile.stdout ++ "\n" ++ compile.stderr

/-- The error of a compile command that failed. -/
def compileError (compile : Exec) (err : GoError) : GoError :=
  .execution .errCompilationFailed
    (err.text ++ " | stdout=" ++ compile.stdout ++ " stderr=" ++ compile.stderr) (-1)

/-- The run itself, after a compile command that succeeded or none. -/
def runProgram (run : Exec) : RawResult where
  stdout := run.stdout
  stderr := run.stderr
  exitCode := (execResult run.ended).1
  execErr := (execResult run.ended).2

/-- `RunRawWithStdin`. -/
def runRawWithStdin (r : RawRun) : RawResult :=
  match r.copyError with
  | some err => { execErr := some err }
  | none =>
    match r.compile with
    | none => runProgram r.run
    | some compile =>
      match (execResult compile.ended).2 with
      | some err =>
        { compileOutput := combined compile, execErr := some (compileError compile err) }
      | none => runProgram r.run

/-! ## The answer of the judge -/

/-- `rawRunResponse`. -/
structure RawRunResponse where
  stdout : String
  stderr : String
  compileOutput : String
  exitCode : ℤ
  timedOut : Bool := false
  oomKilled : Bool := false
  compileError : Bool := false
  timeMs : ℤ
  error : String := ""

/-- The fields of the answer under their tags. -/
def rawRunFields : List (TaggedField RawRunResponse) :=
  [always "stdout" (·.stdout) (fun r x => { r with stdout := x }) string,
    always "stderr" (·.stderr) (fun r x => { r with stderr := x }) string,
    omitEmpty "compileOutput" (·.compileOutput) (fun r x => { r with compileOutput := x }) string,
    always "exitCode" (·.exitCode) (fun r x => { r with exitCode := x }) int,
    always "timedOut" (·.timedOut) (fun r x => { r with timedOut := x }) bool,
    always "oomKilled" (·.oomKilled) (fun r x => { r with oomKilled := x }) bool,
    always "compileError" (·.compileError) (fun r x => { r with compileError := x }) bool,
    always "timeMs" (·.timeMs) (fun r x => { r with timeMs := x }) int,
    omitEmpty "error" (·.error) (fun r x => { r with error := x }) string]

/-- The answer of `handleRawRun` to what the executor returned. -/
def rawRunResponse (result : RawResult) (elapsedMs : ℤ) : RawRunResponse :=
  let resp : RawRunResponse :=
    { stdout := result.stdout, stderr := result.stderr, compileOutput := result.compileOutput
      exitCode := result.exitCode, timeMs := elapsedMs }
  match result.execErr with
  | none => resp
  | some execErr =>
    match execErr.asExecution with
    | some (.errCompilationFailed, message) =>
      { resp with
        compileError := true
        compileOutput := if resp.compileOutput = "" then message else resp.compileOutput }
    | some (.errTimeLimitExceeded, _) => { resp with timedOut := true }
    | some (.errMemoryLimitExceeded, _) => { resp with oomKilled := true }
    | _ => { resp with error := execErr.text }

/-- The body that `json.NewEncoder(w).Encode(resp)` writes; it ends with a new line. -/
def responseBody (resp : RawRunResponse) : Except String String :=
  ((record rawRunFields).encode jsonEncoding resp).map fun j =>
    String.ofList (Json.print Json.goEscape j ++ ['\n'])

/-! ## The shim of the API -/

/-- `CODEASSESS_STATUS`. -/
inductive CodeAssessStatus where
  | accepted
  | runtimeError
  | timeLimitExceeded
  | compilationError
  | internalError
  deriving DecidableEq

/-- The numbers of the statuses. -/
def CodeAssessStatus.id : CodeAssessStatus → ℕ
  | accepted => 3
  | runtimeError => 11
  | timeLimitExceeded => 5
  | compilationError => 6
  | internalError => 13

/-- What `fetch` comes to. -/
inductive Fetched where
  | unreachable (message : String)
  | answered (status : ℕ) (body : String)

/-- The answer of the shim, in the shape of a Judge0 submission.  The member
`exit_signal`, which is always null, is left out. -/
structure Assessment where
  stdout : JsValue := .str ""
  stderr : JsValue
  compileOutput : JsValue := .str ""
  status : CodeAssessStatus
  time : Binary64 := .zero
  memory : ℕ := 0
  exitCode : JsValue := .null

/-- `s.slice(0, n)`: a length counts a character beyond the basic plane twice, and the
half of one is left out here. -/
def sliceStart : ℕ → List Char → List Char
  | _, [] => []
  | n, c :: cs =>
    let units := if c.toNat < 0x10000 then 1 else 2
    if units ≤ n then c :: sliceStart (n - units) cs else []

/-- The first 300 characters of a text. -/
def slice300 (s : String) : String := String.ofList (sliceStart 300 s.toList)

/-- `(Number(x) || 0) / 1000` for the number that `x` is. -/
def seconds : Option JsValue → Binary64
  | some (.num x) =>
    match x.toRat with
    | some q => if q = 0 then .zero else .ofSigned x.isNegative (q / 1000)
    | none => if x matches .nan then .zero else x
  | _ => .zero

/-- `x || y`. -/
def unlessFalsy (x : Option JsValue) (y : JsValue) : JsValue :=
  match x with
  | some v => if truthy (some v) then v else y
  | none => y

/-- The cascade over the answer of the judge. -/
def statusOf (raw : List (String × JsValue)) : CodeAssessStatus :=
  if truthy (lookup raw "compileError") then .compilationError
  else if truthy (lookup raw "timedOut") then .timeLimitExceeded
  else if truthy (lookup raw "oomKilled") then .runtimeError
  else if truthy (lookup raw "error") then .internalError
  else if truthy (lookup raw "exitCode") then .runtimeError
  else .accepted

/-- The text that tells of `raw.error`; the judge sends it as a string. -/
def errorText (raw : List (String × JsValue)) : JsValue :=
  match lookup raw "error" with
  | some (.str error) =>
    .str (if error = "" then "" else "Judge internal error: " ++ slice300 error)
  | _ => .str ""

/-- What `runRawCodeAssess` makes of an answer that is an object. -/
def assess (memoryLimitMb : ℕ) (raw : List (String × JsValue)) : Assessment where
  stdout := unlessFalsy (lookup raw "stdout") (.str "")
  stderr := unlessFalsy (lookup raw "stderr") (errorText raw)
  compileOutput := unlessFalsy (lookup raw "compileOutput") (.str "")
  status := statusOf raw
  time := seconds (lookup raw "timeMs")
  memory :=
    if truthy (lookup raw "compileError") || truthy (lookup raw "timedOut") then 0
    else if truthy (lookup raw "oomKilled") then memoryLimitMb * 1024
    else 0
  exitCode := (lookup raw "exitCode").getD .null

/-- `runRawCodeAssess` from its request to the judge on; `none` when it throws.  The text
of a `SyntaxError` of `JSON.parse` is a parameter. -/
def runRawCodeAssess (syntaxError : String → String) (memoryLimitMb : ℕ) :
    Fetched → Option Assessment
  | .unreachable message =>
    some { stderr := .str ("Judge backend unreachable: " ++ slice300 message)
           status := .internalError }
  | .answered status body =>
    if status < 200 ∨ 300 ≤ status then
      some { stderr := .str ("Judge backend " ++ Text.itoa status ++ ": " ++ slice300 body)
             status := .internalError }
    else
      match JsValue.parse body with
      | none =>
        some { stderr := .str ("Judge backend unreachable: " ++ slice300 (syntaxError body))
               status := .internalError }
      | some .null => none
      | some (.obj raw) => some (assess memoryLimitMb raw)
      | some _ => some (assess memoryLimitMb [])

/-- A raw run from the container to the caller of the shim. -/
def codeAssess (syntaxError : String → String) (memoryLimitMb : ℕ) (r : RawRun)
    (elapsedMs : ℤ) : Option Assessment :=
  match responseBody (rawRunResponse (runRawWithStdin r) elapsedMs) with
  | .ok body => runRawCodeAssess syntaxError memoryLimitMb (.answered 200 body)
  -- an encoder that fails has written nothing
  | .error _ => runRawCodeAssess syntaxError memoryLimitMb (.answered 200 "")

/-! ## The answer is read as it was written -/

/-- What the API reads of an answer of the judge. -/
structure Reads (raw : List (String × JsValue)) (resp : RawRunResponse) : Prop where
  compileError : lookup raw "compileError" = some (.bool resp.compileError)
  timedOut : lookup raw "timedOut" = some (.bool resp.timedOut)
  oomKilled : lookup raw "oomKilled" = some (.bool resp.oomKilled)
  error : lookup raw "error" = if resp.error = "" then none else some (.str resp.error)
  exitCode : lookup raw "exitCode" = some (.num (ofNumber (JsonNumber.ofInt resp.exitCode)))

theorem nodup_rawRunFields : (rawRunFields.map TaggedField.name).Nodup := by decide

/-- No field of an answer has a value that JSON cannot write. -/
theorem member_ok {f : TaggedField RawRunResponse} (hf : f ∈ rawRunFields) (resp : RawRunResponse)
    {e : Except String Json} (he : f.member jsonEncoding resp = some e) : ∃ j, e = .ok j := by
  have hwritten : ∀ {x : String}, (if string.isEmpty x then none
      else some (string.encode jsonEncoding x)) = some e → ∃ j, e = .ok j := by
    intro x hx
    split at hx
    · cases hx
    · exact ⟨_, (Option.some.inj hx).symm⟩
  unfold rawRunFields at hf
  simp only [List.mem_cons, List.not_mem_nil, or_false] at hf
  rcases hf with rfl | rfl | rfl | rfl | rfl | rfl | rfl | rfl | rfl
  case inr.inr.inl => exact hwritten he
  case inr.inr.inr.inr.inr.inr.inr.inr => exact hwritten he
  all_goals exact ⟨_, (Option.some.inj he).symm⟩

/-- **Round trip**: the API reads the fields of the answer that the judge has written. -/
theorem parse_responseBody (resp : RawRunResponse) :
    ∃ body raw, responseBody resp = .ok body ∧ JsValue.parse body = some (.obj raw) ∧
      Reads raw resp := by
  obtain ⟨js, hjs⟩ : ∃ js, GoValue.collectMembers (members rawRunFields jsonEncoding resp) =
      .ok js := by
    refine collectMembers_ok fun m hm => ?_
    obtain ⟨f, hf, hmember⟩ := List.mem_filterMap.mp hm
    obtain ⟨e, he, rfl⟩ := Option.map_eq_some_iff.mp hmember
    exact member_ok hf resp he
  have hnodup : (js.map Prod.fst).Nodup := by
    rw [keys_collectMembers hjs]
    exact nodup_members nodup_rawRunFields
  have hread : ∀ f ∈ rawRunFields, ∀ o : Option Json,
      f.member jsonEncoding resp = o.map .ok → lookup (ofMembers js []) f.name = o.map ofJson := by
    intro f hf o ho
    have hlookup := lookup_collectMembers hjs f.name
    rw [lookup_members nodup_rawRunFields hf, ho] at hlookup
    have hinj : Function.Injective (Except.ok : Json → Except String Json) := fun _ _ h => by
      injection h
    rw [lookup_ofMembers_nil hnodup, Option.map_injective hinj hlookup.symm]
  refine ⟨String.ofList (Json.print Json.goEscape (.obj js) ++ ['\n']), ofMembers js [], ?_, ?_, ?_⟩
  · unfold responseBody record
    show Except.map _ (Except.map Json.obj _) = _
    rw [hjs]
    rfl
  · have hws : ∀ c ∈ ['\n'], Json.isWs c = true := fun c hc => by
      rw [List.mem_singleton.mp hc]
      rfl
    unfold JsValue.parse
    rw [Json.parse_print_append Json.goEscape (.obj js) hws]
    rfl
  · refine ⟨?_, ?_, ?_, ?_, ?_⟩
    · exact hread rawRunFields[6] (List.getElem_mem _) (some (.bool _)) rfl
    · exact hread rawRunFields[4] (List.getElem_mem _) (some (.bool _)) rfl
    · exact hread rawRunFields[5] (List.getElem_mem _) (some (.bool _)) rfl
    · by_cases hempty : resp.error = ""
      · rw [if_pos hempty]
        exact hread rawRunFields[8] (List.getElem_mem _) none (if_pos (decide_eq_true hempty))
      · rw [if_neg hempty]
        exact hread rawRunFields[8] (List.getElem_mem _) (some (.str resp.error))
          (if_neg fun h => hempty (of_decide_eq_true h))
    · exact hread rawRunFields[3] (List.getElem_mem _) (some (.num _)) rfl

/-- The status that the fields of an answer stand for. -/
def RawRunResponse.status (resp : RawRunResponse) : CodeAssessStatus :=
  if resp.compileError then .compilationError
  else if resp.timedOut then .timeLimitExceeded
  else if resp.oomKilled then .runtimeError
  else if resp.error ≠ "" then .internalError
  else if truthy (some (.num (ofNumber (JsonNumber.ofInt resp.exitCode)))) then .runtimeError
  else .accepted

theorem Reads.statusOf_eq {raw : List (String × JsValue)} {resp : RawRunResponse}
    (h : Reads raw resp) : statusOf raw = resp.status := by
  unfold statusOf RawRunResponse.status
  rw [h.compileError, h.timedOut, h.oomKilled, h.error, h.exitCode]
  by_cases herror : resp.error = ""
  · rw [if_pos herror, if_neg (not_not_intro herror)]
    rfl
  · rw [if_neg herror, if_pos herror]
    have htrue : truthy (some (.str resp.error)) = true := decide_eq_true herror
    rw [if_pos htrue]
    rfl

/-- The shim answers each raw run, with the status that the fields of the judge's answer
stand for. -/
theorem codeAssess_status (syntaxError : String → String) (memoryLimitMb : ℕ) (r : RawRun)
    (elapsedMs : ℤ) :
    ∃ a, codeAssess syntaxError memoryLimitMb r elapsedMs = some a ∧
      a.status = (rawRunResponse (runRawWithStdin r) elapsedMs).status := by
  obtain ⟨body, raw, hbody, hraw, hreads⟩ :=
    parse_responseBody (rawRunResponse (runRawWithStdin r) elapsedMs)
  refine ⟨assess memoryLimitMb raw, ?_, hreads.statusOf_eq⟩
  unfold codeAssess
  rw [hbody]
  unfold runRawCodeAssess
  simp only [hraw]
  rfl

/-! ## What happened -/

namespace RawRun

variable (r : RawRun)

/-- The executor is reached and none of its commands fails for a reason of its own. -/
def Undisturbed : Prop :=
  r.copyError = none ∧ (∀ compile, r.compile = some compile → ∀ err, compile.ended ≠ .failed err) ∧
    ∀ err, r.run.ended ≠ .failed err

/-- The compile command has run, and not to a successful end. -/
def CompilationFailed : Prop := ∃ compile, r.compile = some compile ∧ compile.ended ≠ .exited 0

/-- The run has hit its time limit. -/
def HitTimeLimit : Prop := ¬r.CompilationFailed ∧ ∃ timeout, r.run.ended = .timedOut timeout

/-- The program itself has ended, with this exit code. -/
def EndedWith (exitCode : ℤ) : Prop := ¬r.CompilationFailed ∧ r.run.ended = .exited exitCode

/-- **The status says what happened** during the raw run. -/
structure Reported (status : CodeAssessStatus) : Prop where
  compilationError : status = .compilationError ↔ r.CompilationFailed
  timeLimitExceeded : status = .timeLimitExceeded ↔ r.HitTimeLimit
  runtimeError : status = .runtimeError ↔ ∃ exitCode, r.EndedWith exitCode ∧ exitCode ≠ 0
  accepted : status = .accepted ↔ r.EndedWith 0
  internalError : status = .internalError → ¬r.Undisturbed

/-- The program ends with an exit code that the executor knows: 0, or 137 of a kill. -/
def EndsPlainly : Prop :=
  r.CompilationFailed ∨ r.HitTimeLimit ∨ r.EndedWith 0 ∨ r.EndedWith 137

/-- The four ends of an undisturbed raw run. -/
theorem Undisturbed.cases {r : RawRun} (h : r.Undisturbed) :
    r.CompilationFailed ∨ r.HitTimeLimit ∨ ∃ exitCode, r.EndedWith exitCode := by
  by_cases hcompile : r.CompilationFailed
  · exact .inl hcompile
  · cases hended : r.run.ended with
    | exited exitCode => exact .inr (.inr ⟨exitCode, hcompile, hended⟩)
    | timedOut timeout => exact .inr (.inl ⟨hcompile, timeout, hended⟩)
    | failed err => exact absurd hended (h.2.2 err)

/-- The executor's error for a command that does not exit with 0. -/
theorem execResult_error {ended : ExecEnd} (h : ended ≠ .exited 0) :
    ∃ err, (execResult ended).2 = some err := by
  cases ended with
  | exited exitCode =>
    have hne : exitCode ≠ 0 := fun h0 => h (h0 ▸ rfl)
    by_cases h137 : exitCode = 137
    · exact ⟨_, by rw [execResult, execWaitResult, if_pos hne, if_pos h137]⟩
    · exact ⟨_, by rw [execResult, execWaitResult, if_pos hne, if_neg h137]⟩
  | timedOut timeout => exact ⟨_, rfl⟩
  | failed err => exact ⟨_, rfl⟩

section Statuses

variable {r : RawRun} {elapsedMs : ℤ}

/-- The answer to a run whose compile command has failed. -/
theorem status_of_compilationFailed (h : r.Undisturbed) (hc : r.CompilationFailed) :
    (rawRunResponse (runRawWithStdin r) elapsedMs).status = .compilationError := by
  obtain ⟨compile, hcompile, hended⟩ := hc
  obtain ⟨err, herr⟩ := execResult_error hended
  unfold runRawWithStdin
  simp only [h.1, hcompile, herr]
  rfl

/-- The program is run when no compile command fails. -/
theorem runRawWithStdin_of_compiled (h : r.Undisturbed) (hc : ¬r.CompilationFailed) :
    runRawWithStdin r = runProgram r.run := by
  unfold runRawWithStdin
  cases hcompile : r.compile with
  | none => simp only [h.1]
  | some compile =>
    have hended : compile.ended = .exited 0 := not_not.mp fun hne => hc ⟨compile, hcompile, hne⟩
    simp only [h.1, hended]
    rfl

theorem status_of_hitTimeLimit (h : r.Undisturbed) (ht : r.HitTimeLimit) :
    (rawRunResponse (runRawWithStdin r) elapsedMs).status = .timeLimitExceeded := by
  obtain ⟨hc, timeout, hended⟩ := ht
  rw [runRawWithStdin_of_compiled h hc]
  unfold runProgram
  rw [hended]
  rfl

/-- The exit code 0 is no number that counts as true. -/
theorem zero_falsy : truthy (some (.num (ofNumber (JsonNumber.ofInt 0)))) = false := by
  decide +kernel

/-- The error of an exit code that the executor does not know has a text. -/
theorem text_of_exitCode (exitCode : ℤ) :
    (GoError.execution .errRuntimeError ("exit code " ++ Text.itoa exitCode) exitCode).text ≠ "" := by
  have hmessage : "exit code " ++ Text.itoa exitCode ≠ "" := fun h =>
    absurd (String.append_eq_empty_iff.mp h).1 (by decide)
  unfold GoError.text
  rw [if_pos hmessage]
  exact fun h => hmessage (String.append_eq_empty_iff.mp h).2

/-- The status of a program that has ended by itself: an exit code that is neither 0 nor
137 comes back as an error of the judge. -/
theorem status_of_endedWith {exitCode : ℤ} (h : r.Undisturbed) (he : r.EndedWith exitCode) :
    (rawRunResponse (runRawWithStdin r) elapsedMs).status =
      if exitCode = 0 then .accepted else if exitCode = 137 then .runtimeError
      else .internalError := by
  rw [runRawWithStdin_of_compiled h he.1]
  unfold runProgram
  rw [he.2]
  by_cases h0 : exitCode = 0
  · subst h0
    show (if truthy (some (.num (ofNumber (JsonNumber.ofInt 0)))) then _ else _) = _
    rw [zero_falsy]
    rfl
  · by_cases h137 : exitCode = 137
    · subst h137
      rfl
    · have hend : execResult (.exited exitCode) = (exitCode, some (.execution .errRuntimeError
          ("exit code " ++ Text.itoa exitCode) exitCode)) := by
        unfold execResult execWaitResult
        simp only
        rw [if_pos h0, if_neg h137]
      rw [hend, if_neg h0, if_neg h137]
      show (if (GoError.execution .errRuntimeError ("exit code " ++ Text.itoa exitCode)
        exitCode).text ≠ "" then CodeAssessStatus.internalError else
        if truthy (some (.num (ofNumber (JsonNumber.ofInt exitCode)))) then .runtimeError
        else .accepted) = _
      rw [if_pos (text_of_exitCode exitCode)]

end Statuses

/-- The outcomes of a raw run exclude each other. -/
theorem EndedWith.unique {r : RawRun} {exitCode code : ℤ} (h : r.EndedWith exitCode)
    (h' : r.EndedWith code) : exitCode = code := by
  have heq := h.2.symm.trans h'.2
  injection heq

theorem HitTimeLimit.not_endedWith {r : RawRun} (h : r.HitTimeLimit) (exitCode : ℤ) :
    ¬r.EndedWith exitCode := by
  intro he
  obtain ⟨-, timeout, ht⟩ := h
  rw [he.2] at ht
  cases ht

end RawRun

open RawRun

/-- **The status of a raw run says what happened exactly when the run ends plainly**: the
compile command has failed, the time limit was hit, or the exit code is 0 or 137. -/
theorem reported_iff (syntaxError : String → String) (memoryLimitMb : ℕ) (r : RawRun)
    (elapsedMs : ℤ) (h : r.Undisturbed) :
    (∃ a, codeAssess syntaxError memoryLimitMb r elapsedMs = some a ∧ r.Reported a.status) ↔
      r.EndsPlainly := by
  obtain ⟨a, ha, hstatus⟩ := codeAssess_status syntaxError memoryLimitMb r elapsedMs
  have hreported : (∃ b, codeAssess syntaxError memoryLimitMb r elapsedMs = some b ∧
      r.Reported b.status) ↔ r.Reported a.status := by
    constructor
    · rintro ⟨b, hb, hr⟩
      rw [ha] at hb
      rwa [Option.some.inj hb]
    · exact fun hr => ⟨a, ha, hr⟩
  rw [hreported, hstatus]
  rcases h.cases with hc | ht | ⟨exitCode, he⟩
  · rw [status_of_compilationFailed h hc]
    have hplain : r.EndsPlainly := .inl hc
    refine iff_of_true ⟨?_, ?_, ?_, ?_, ?_⟩ hplain
    · exact iff_of_true rfl hc
    · exact iff_of_false (by decide) fun ht => ht.1 hc
    · exact iff_of_false (by decide) fun ⟨_, he, _⟩ => he.1 hc
    · exact iff_of_false (by decide) fun he => he.1 hc
    · exact fun hs => nomatch hs
  · rw [status_of_hitTimeLimit h ht]
    have hplain : r.EndsPlainly := .inr (.inl ht)
    refine iff_of_true ⟨?_, ?_, ?_, ?_, ?_⟩ hplain
    · exact iff_of_false (by decide) ht.1
    · exact iff_of_true rfl ht
    · exact iff_of_false (by decide) fun ⟨code, he, _⟩ => ht.not_endedWith code he
    · exact iff_of_false (by decide) (ht.not_endedWith 0)
    · exact fun hs => nomatch hs
  · rw [status_of_endedWith h he]
    by_cases h0 : exitCode = 0
    · subst h0
      rw [if_pos rfl]
      have hplain : r.EndsPlainly := .inr (.inr (.inl he))
      refine iff_of_true ⟨?_, ?_, ?_, ?_, ?_⟩ hplain
      · exact iff_of_false (by decide) he.1
      · exact iff_of_false (by decide) fun ht => ht.not_endedWith 0 he
      · exact iff_of_false (by decide) fun ⟨_, he', hne⟩ => hne (he'.unique he)
      · exact iff_of_true rfl he
      · exact fun hs => nomatch hs
    · rw [if_neg h0]
      by_cases h137 : exitCode = 137
      · subst h137
        rw [if_pos rfl]
        have hplain : r.EndsPlainly := .inr (.inr (.inr he))
        refine iff_of_true ⟨?_, ?_, ?_, ?_, ?_⟩ hplain
        · exact iff_of_false (by decide) he.1
        · exact iff_of_false (by decide) fun ht => ht.not_endedWith 137 he
        · exact iff_of_true rfl ⟨137, he, h0⟩
        · exact iff_of_false (by decide) fun he' => h0 (he.unique he')
        · exact fun hs => nomatch hs
      · rw [if_neg h137]
        refine iff_of_false (fun hr => hr.internalError rfl h) ?_
        rintro (hc | ht | he' | he')
        · exact he.1 hc
        · exact ht.not_endedWith exitCode he
        · exact h0 (he.unique he')
        · exact h137 (he.unique he')

/-- A Python program that prints a line and ends with exit code 1. -/
def exitsWithOne : RawRun := ⟨none, none, ⟨"out", "", .exited 1⟩⟩

/-- A C program that compiles and is killed. -/
def isKilled : RawRun := ⟨none, some ⟨"", "", .exited 0⟩, ⟨"", "", .exited 137⟩⟩

theorem exitsWithOne_undisturbed : exitsWithOne.Undisturbed := by
  refine ⟨rfl, ?_, ?_⟩
  · rintro compile ⟨⟩
  · rintro err ⟨⟩

theorem isKilled_undisturbed : isKilled.Undisturbed := by
  refine ⟨rfl, ?_, ?_⟩
  · rintro compile ⟨⟩ err ⟨⟩
  · rintro err ⟨⟩

theorem reported_iff_killed :
    (∃ a, codeAssess id 256 isKilled 20 = some a ∧ isKilled.Reported a.status) ↔
      isKilled.EndsPlainly :=
  reported_iff id 256 isKilled 20 isKilled_undisturbed

/-- The exit code 1 of a program is reported as an error of the judge. -/
theorem exitsWithOne_not_reported :
    ¬∀ (syntaxError : String → String) (memoryLimitMb : ℕ) (r : RawRun) (elapsedMs : ℤ),
      r.Undisturbed →
        ∃ a, codeAssess syntaxError memoryLimitMb r elapsedMs = some a ∧ r.Reported a.status := by
  intro h
  obtain ⟨a, ha, hr⟩ := h id 256 exitsWithOne 20 exitsWithOne_undisturbed
  obtain ⟨b, hb, hstatus⟩ := codeAssess_status id 256 exitsWithOne 20
  rw [hb] at ha
  obtain rfl := Option.some.inj ha
  refine hr.internalError ?_ exitsWithOne_undisturbed
  rw [hstatus]
  decide +kernel

end RawRuns
