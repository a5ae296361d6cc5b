/-
# Running a practice problem

`runProblem` of the problems service sends a program to the judge and returns what
the judge finds, without storing a submission.  A request may bring its own tests;
one that names no expected value gets the one of the test case with the same inputs.

Everything about custom tests is shown, so the question is what they can be filled
with: `runProblem_eq_iff` says for which custom tests a run is the same program
whatever hidden test cases expect.
-/
import JudgePlatform.Api.SubmissionReads

namespace Api

open JsValue

/-! ## Requests -/

inductive RunRequest where
  | findProblem (id : ObjectId)
  | now
  /-- `POST /run`, with its body -/
  | run (body : String)

/-- How the judge answers, if it is reached. -/
inductive JudgeReply where
  | unreachable
  | refused (status : ℕ) (text : String)
  | answered (text : String)

def RunReply : RunRequest → Type
  | .findProblem _ => Option Problem
  | .now => Date
  | .run _ => JudgeReply

abbrev RunTask (α : Type) := Program RunReply ServiceError α

structure RunPayload where
  code : Option JsValue
  language : Option JsValue
  customTests : Option (List JsValue)

/-! ## Expected values for custom tests -/

/-- `fillMap`: of two test cases with the same inputs the later one stays. -/
def fillMap : List TestCase → Members → Members
  | [], map => map
  | tc :: tcs, map => fillMap tcs (setMember map (stringify tc.inputs) (some tc.expected))

/-- Fill in the expected value of a test that has none. -/
def fillExpected (map : Members) : JsValue → JsValue
  | obj ms =>
    match orElse (lookup ms "expected") none, lookup ms "inputs" with
    | none, some inputs =>
      match lookup map (stringify inputs) with
      | some expected => obj (setMember ms "expected" (some expected))
      | none => obj ms
    | _, _ => obj ms
  | t => t

def judgeTests (problem : Problem) (tests : List JsValue) : List JsValue :=
  if tests = [] ∨ problem.testCases = [] then tests
  else tests.map (fillExpected (fillMap problem.testCases []))

/-! ## The message to the judge -/

def CompareConfig.toObject (c : CompareConfig) : Members :=
  optional "mode" (c.mode.map str) ++
    [("floatTolerance", num c.floatTolerance),
      ("orderInsensitive", bool c.orderInsensitive),
      ("requireDeepCopy", bool c.requireDeepCopy)]

def judgeMsg (problem : Problem) (id : ObjectId) (payload : RunPayload) (now : Date) : Members :=
  let problemType := orString problem.problemType "function"
  [("schemaVersion", str "1"),
    ("submissionId", str ("run-" ++ stringify (num now))),
    ("problemId", str id)] ++
  optional "language" payload.language ++
  optional "code" payload.code ++
  [("problemType", str problemType),
    ("compareMode", str (orString (problem.compareConfig.bind CompareConfig.mode) "STRUCTURAL")),
    ("compareConfig", obj ((problem.compareConfig.map CompareConfig.toObject).getD [])),
    ("tests", arr (judgeTests problem (payload.customTests.getD [])))] ++
  if problemType ≠ "stdin" then optional "functionName" (problem.functionName.map str) else []

/-! ## The answer of the judge -/

/-- The details of custom tests: everything is visible. -/
def showCustom : List JsValue → Option (List JsValue)
  | [] => some []
  | null :: _ => none
  | d :: ds => (showCustom ds).map fun ds' => obj (shownDetail (spread d)) :: ds'

def runDetails (problem : Problem) (payload : RunPayload) (details : List JsValue) :
    Option (List JsValue) :=
  if payload.customTests.getD [] = [] then
    sanitizeResultDetails details problem.testCases false
  else showCustom details

def judgeFailure : ServiceError := .http 500 "Failed to connect to judge service"

def runResponse (problem : Problem) (payload : RunPayload) :
    JudgeReply → Except ServiceError JsValue
  | .unreachable => .error judgeFailure
  | .refused status text => .error (.http status ("Judge service error: " ++ text))
  | .answered text =>
    match JsValue.parse text with
    | none => .error judgeFailure
    | some judgeResult =>
      match detailsOf (some judgeResult) with
      | none => .ok judgeResult
      | some (ms, details) =>
        match runDetails problem payload details with
        | none => .error judgeFailure
        | some details => .ok (withDetails ms details)

/-- Send a message and evaluate the answer to it. -/
def sendRun (msg : Date → Members) (response : JudgeReply → Except ServiceError JsValue) :
    RunTask JsValue :=
  .ask .now fun
    | .error e => .fail e
    | .ok now =>
      .ask (.run (stringify (obj (msg now)))) fun
        | .error _ => .fail judgeFailure
        | .ok reply =>
          match response reply with
          | .ok judgeResult => .done judgeResult
          | .error e => .fail e

/-- `runProblem`, once the problem is found. -/
def runFound (problem : Problem) (id : ObjectId) (payload : RunPayload) : RunTask JsValue :=
  sendRun (judgeMsg problem id payload) (runResponse problem payload)

def runProblem (id : ObjectId) (payload : RunPayload) : RunTask JsValue := do
  let found : Option Problem ← Program.call (RunRequest.findProblem id)
  match found with
  | none => throw (.http 404 "Problem not found")
  | some problem => runFound problem id payload

/-- What is answered about custom tests does not depend on the problem. -/
theorem runResponse_custom (problem problem' : Problem) (code language : Option JsValue)
    (t : JsValue) (ts : List JsValue) :
    runResponse problem' ⟨code, language, some (t :: ts)⟩ =
      runResponse problem ⟨code, language, some (t :: ts)⟩ := rfl

/-! ## What custom tests are filled with -/

/-- The test case that a test with these inputs is filled from. -/
def filledFrom (testCases : List TestCase) (inputs : JsValue) : Option TestCase :=
  (testCases.filter fun tc => stringify tc.inputs = stringify inputs).getLast?

theorem lookup_fillMap (testCases : List TestCase) (map : Members) (inputs : JsValue) :
    lookup (fillMap testCases map) (stringify inputs) =
      ((filledFrom testCases inputs).map TestCase.expected).or (lookup map (stringify inputs)) := by
  induction testCases generalizing map with
  | nil => rfl
  | cons tc tcs ih =>
    rw [fillMap, ih, lookup_setMember]
    unfold filledFrom
    by_cases h : stringify tc.inputs = stringify inputs
    · rw [List.filter_cons, if_pos (decide_eq_true h), List.getLast?_cons, if_pos h.symm]
      cases (tcs.filter fun tc => stringify tc.inputs = stringify inputs).getLast? with
      | none => rfl
      | some _ => rfl
    · have hne : ¬decide (stringify tc.inputs = stringify inputs) = true := by simpa using h
      rw [List.filter_cons, if_neg hne, if_neg (Ne.symm h)]

/-- Two versions of a problem that differ in what hidden test cases expect. -/
structure HiddenExpectedOnly (problem problem' : Problem) : Prop where
  rest : problem' = { problem with testCases := problem'.testCases }
  tests : List.Forall₂
    (fun tc tc' => tc' = { tc with expected := tc'.expected } ∧
      (isSampleTestCase tc = true → tc'.expected = tc.expected))
    problem.testCases problem'.testCases

/-- A test that is not filled in, or not from a hidden test case. -/
def FilledFromSample (problem : Problem) (t : JsValue) : Prop :=
  ∀ ms inputs tc, t = obj ms → orElse (lookup ms "expected") none = none →
    lookup ms "inputs" = some inputs → filledFrom problem.testCases inputs = some tc →
    isSampleTestCase tc = true

section Filled

variable {problem problem' : Problem} (h : HiddenExpectedOnly problem problem')

include h

/-- The versions fill a test from test cases at the same place. -/
theorem HiddenExpectedOnly.filledFrom (inputs : JsValue) :
    (Api.filledFrom problem.testCases inputs = none ∧
      Api.filledFrom problem'.testCases inputs = none) ∨
    ∃ tc tc', Api.filledFrom problem.testCases inputs = some tc ∧
      Api.filledFrom problem'.testCases inputs = some tc' ∧
      (isSampleTestCase tc = true → tc'.expected = tc.expected) := by
  have htests := h.tests
  unfold Api.filledFrom
  generalize problem.testCases = testCases, problem'.testCases = testCases' at htests
  induction htests with
  | nil => exact Or.inl ⟨rfl, rfl⟩
  | @cons tc tc' tcs tcs' htc _ ih =>
    have hinputs : tc'.inputs = tc.inputs := by rw [htc.1]
    by_cases hkey : stringify tc.inputs = stringify inputs
    · rw [List.filter_cons, if_pos (decide_eq_true hkey), List.filter_cons,
        if_pos (by simpa [hinputs] using hkey), List.getLast?_cons, List.getLast?_cons]
      rcases ih with ⟨hnone, hnone'⟩ | ⟨last, last', hlast, hlast', hsample⟩
      · rw [hnone, hnone']
        exact Or.inr ⟨tc, tc', rfl, rfl, htc.2⟩
      · rw [hlast, hlast']
        exact Or.inr ⟨last, last', rfl, rfl, hsample⟩
    · rw [List.filter_cons, if_neg (by simpa using hkey), List.filter_cons,
        if_neg (by simpa [hinputs] using hkey)]
      exact ih

theorem HiddenExpectedOnly.fillExpected_eq {t : JsValue} (ht : FilledFromSample problem t) :
    fillExpected (fillMap problem'.testCases []) t = fillExpected (fillMap problem.testCases []) t := by
  cases t with
  | obj ms =>
    simp only [fillExpected]
    cases hexpected : orElse (lookup ms "expected") none with
    | some v => rfl
    | none =>
      cases hinputs : lookup ms "inputs" with
      | none => rfl
      | some inputs =>
        have hlookup : lookup (fillMap problem'.testCases []) (stringify inputs) =
            lookup (fillMap problem.testCases []) (stringify inputs) := by
          rw [lookup_fillMap, lookup_fillMap]
          rcases h.filledFrom inputs with ⟨hnone, hnone'⟩ | ⟨tc, tc', htc, htc', hsample⟩
          · rw [hnone, hnone']
          · rw [htc, htc', Option.map_some, Option.map_some,
              hsample (ht ms inputs tc rfl hexpected hinputs htc)]
        simp only [hlookup]
  | _ => rfl

theorem HiddenExpectedOnly.judgeTests_eq {tests : List JsValue}
    (htests : ∀ t ∈ tests, FilledFromSample problem t) :
    judgeTests problem' tests = judgeTests problem tests := by
  have hempty : problem'.testCases = [] ↔ problem.testCases = [] := by
    rw [← List.length_eq_zero_iff, ← List.length_eq_zero_iff, h.tests.length_eq]
  unfold judgeTests
  simp only [hempty]
  split
  · rfl
  · exact List.map_congr_left fun t ht => h.fillExpected_eq (htests t ht)

end Filled

/-! ## What the message tells -/

theorem holds_judgeMsg (problem : Problem) (id : ObjectId) (payload : RunPayload) (now : Date) :
    Holds (judgeMsg problem id payload now) "tests"
      (arr (judgeTests problem (payload.customTests.getD []))) := by
  unfold judgeMsg optional
  constructor
  · simp
  · intro m hm hk
    simp only [List.mem_append, List.mem_cons, List.not_mem_nil, or_false,
      Option.mem_toList, Option.map_eq_some_iff] at hm
    rcases hm with ((((rfl | rfl | rfl) | ⟨v, -, rfl⟩) | ⟨v, -, rfl⟩) | rfl | rfl | rfl | rfl) | hm
    all_goals first
      | rfl
      | exact absurd hk (by simp)
      | skip
    split at hm
    · simp only [Option.mem_toList, Option.map_eq_some_iff] at hm
      obtain ⟨v, -, rfl⟩ := hm
      exact absurd hk (by simp)
    · cases hm

/-- Equal runs send the judge the same tests. -/
theorem toJson_judgeTests_of_runFound_eq {problem problem' : Problem} {id : ObjectId}
    {payload : RunPayload} (h : runFound problem id payload = runFound problem' id payload) :
    (judgeTests problem (payload.customTests.getD [])).map toJson =
      (judgeTests problem' (payload.customTests.getD [])).map toJson := by
  have hnext := eq_of_heq (Program.ask.inj h).2
  have hrun := Program.ask.inj (congrFun hnext (.ok Binary64.zero))
  have htext := (RunRequest.run.injEq _ _).mp hrun.1
  have harr := (holds_judgeMsg problem id payload _).toJson_eq
    (holds_judgeMsg problem' id payload _) (toJson_of_stringify htext)
  simp only [toJson, Json.arr.injEq, toElements_eq] at harr
  exact harr

/-- Another expected value for the hidden test cases with these inputs. -/
def withHiddenExpected (problem : Problem) (inputs expected : JsValue) : Problem :=
  { problem with
    testCases := problem.testCases.map fun tc =>
      if isSampleTestCase tc = false ∧ stringify tc.inputs = stringify inputs then
        { tc with expected }
      else tc }

theorem hiddenExpectedOnly_withHiddenExpected (problem : Problem) (inputs expected : JsValue) :
    HiddenExpectedOnly problem (withHiddenExpected problem inputs expected) := by
  refine ⟨rfl, ?_⟩
  show List.Forall₂ _ problem.testCases (problem.testCases.map _)
  rw [List.forall₂_map_right_iff, List.forall₂_same]
  intro tc _
  split
  · rename_i htc
    exact ⟨rfl, fun hsample => absurd (htc.1.symm.trans hsample) Bool.false_ne_true⟩
  · exact ⟨rfl, fun _ => rfl⟩

theorem filledFrom_withHiddenExpected {problem : Problem} {inputs : JsValue} {tc : TestCase}
    (htc : filledFrom problem.testCases inputs = some tc) (hhidden : isSampleTestCase tc = false)
    (expected : JsValue) :
    filledFrom (withHiddenExpected problem inputs expected).testCases inputs =
      some { tc with expected } := by
  have hmem := List.mem_of_getLast? htc
  have hkey : stringify tc.inputs = stringify inputs := by simpa using (List.mem_filter.mp hmem).2
  have hfilter : ∀ tcs : List TestCase, (tcs.map fun tc =>
      if isSampleTestCase tc = false ∧ stringify tc.inputs = stringify inputs then
        { tc with expected }
      else tc).filter (fun tc => stringify tc.inputs = stringify inputs) =
      (tcs.filter fun tc => stringify tc.inputs = stringify inputs).map fun tc =>
        if isSampleTestCase tc = false ∧ stringify tc.inputs = stringify inputs then
          { tc with expected }
        else tc := by
    intro tcs
    rw [List.filter_map]
    congr 1
    refine List.filter_congr fun tc _ => ?_
    show decide (stringify (if _ then _ else tc).inputs = _) = _
    split <;> rfl
  unfold filledFrom at htc ⊢
  show ((problem.testCases.map _).filter _).getLast? = _
  rw [hfilter, List.getLast?_map, htc, Option.map_some, if_pos ⟨hhidden, hkey⟩]

/-- **A run of custom tests hides what hidden test cases expect if and only if** no
test is filled in from a hidden one. -/
theorem runProblem_eq_iff (problem : Problem) (id : ObjectId) (code language : Option JsValue)
    (t : JsValue) (ts : List JsValue) :
    (∀ problem', HiddenExpectedOnly problem problem' →
      runFound problem' id ⟨code, language, some (t :: ts)⟩ =
        runFound problem id ⟨code, language, some (t :: ts)⟩) ↔
    ∀ t' ∈ t :: ts, FilledFromSample problem t' := by
  constructor
  · intro hruns t' ht' ms inputs tc hobj hexpected hinputs htc
    by_contra hsample
    rw [Bool.not_eq_true] at hsample
    have hfilled : ∀ expected, fillExpected
        (fillMap (withHiddenExpected problem inputs expected).testCases []) t' =
          obj (setMember ms "expected" (some expected)) := by
      intro expected
      simp only [hobj, fillExpected, hexpected, hinputs, lookup_fillMap,
        filledFrom_withHiddenExpected htc hsample, Option.map_some, Option.some_or]
    have htests : ∀ expected, judgeTests (withHiddenExpected problem inputs expected) (t :: ts) =
        (t :: ts).map
          (fillExpected (fillMap (withHiddenExpected problem inputs expected).testCases [])) := by
      intro expected
      refine if_neg (not_or.mpr ⟨List.cons_ne_nil _ _, fun hnil => ?_⟩)
      have hfrom := filledFrom_withHiddenExpected htc hsample expected
      rw [hnil] at hfrom
      cases hfrom
    have heq := toJson_judgeTests_of_runFound_eq
      ((hruns _ (hiddenExpectedOnly_withHiddenExpected problem inputs (bool true))).trans
        (hruns _ (hiddenExpectedOnly_withHiddenExpected problem inputs (bool false))).symm)
    simp only [Option.getD_some, htests, List.map_map] at heq
    have hjson := List.map_inj_left.mp heq t' ht'
    simp only [Function.comp_apply, hfilled] at hjson
    have hbool := (holds_setMember ms "expected" (bool true)).toJson_eq
      (holds_setMember ms "expected" (bool false)) hjson
    simp [toJson] at hbool
  · intro hfilled problem' h
    let payload : RunPayload := ⟨code, language, some (t :: ts)⟩
    have htests : judgeTests problem' (payload.customTests.getD []) =
        judgeTests problem (payload.customTests.getD []) := h.judgeTests_eq hfilled
    have hmsg : judgeMsg problem' id payload = judgeMsg problem id payload := by
      have htype : problem'.problemType = problem.problemType := by rw [h.rest]
      have hconfig : problem'.compareConfig = problem.compareConfig := by rw [h.rest]
      have hname : problem'.functionName = problem.functionName := by rw [h.rest]
      funext now
      unfold judgeMsg
      rw [htests, htype, hconfig, hname]
    exact congrArg₂ sendRun hmsg (runResponse_custom problem problem' code language t ts)

/-- A problem with one hidden test case. -/
def hiddenProblem (expected : Bool) : Problem where
  id := "problem"
  title := "Parity"
  problemType := none
  functionName := some "isOdd"
  compareConfig := none
  testCases := [⟨arr [str "7"], bool expected, some false, some true⟩]
  isPremium := false

/-- A custom test with the inputs of a hidden test case carries its expected value to
the judge. -/
theorem runProblem_eq_fails :
    HiddenExpectedOnly (hiddenProblem true) (hiddenProblem false) ∧
    runFound (hiddenProblem true) "problem" ⟨none, none, some [obj [("inputs", arr [str "7"])]]⟩ ≠
      runFound (hiddenProblem false) "problem"
        ⟨none, none, some [obj [("inputs", arr [str "7"])]]⟩ := by
  refine ⟨⟨rfl, .cons ⟨rfl, fun h => absurd h (by decide)⟩ .nil⟩, fun h => ?_⟩
  have htests := congrArg (List.map (Json.print Json.jsEscape)) (toJson_judgeTests_of_runFound_eq h)
  exact absurd htests (by decide +kernel)

end Api
