/-
# Published messages

A message that the API publishes is written by `JSON.stringify` and read by the judge's
`json.Unmarshal`; both sides check it, each in its own way.

* `JudgeMessage.body` : the object that is written.
* `JudgeMessage.received` : the message that the judge reads; `unmarshal_body` says that it is.
* `accepted_iff` : the judge takes what the API takes, within four limits.
-/
import JudgePlatform.Api.Deliveries
import JudgePlatform.Api.Publishing

/-! ## Values -/

namespace JsValue

theorem toJson_num {x : Binary64} (h : x ≠ .negZero) :
    (num x).toJson = (JsonNumber.formatFloat x).elim .null .num := by
  cases x with
  | negZero => exact absurd rfl h
  | _ =>
    unfold toJson
    split
    · rename_i n hn
      rw [hn]
      rfl
    · rename_i hn
      rw [hn]
      rfl

theorem decodable_num (x : Binary64) : GoValue.Decodable (num x).toJson := by
  by_cases hzero : x = .negZero
  · obtain ⟨y, hy⟩ := JsonNumber.parseFloat_ofInt (n := 0) (by norm_num)
    rw [hzero]
    show GoValue.Decodable (.num (JsonNumber.ofInt 0))
    unfold GoValue.Decodable
    rw [GoValue.ofJson.eq_def]
    simp only [hy]
  · rw [toJson_num hzero]
    cases hn : JsonNumber.formatFloat x with
    | none => rfl
    | some n =>
      show GoValue.Decodable (.num n)
      unfold GoValue.Decodable
      rw [GoValue.ofJson.eq_def]
      simp only [JsonNumber.parseFloat_formatFloat hn]

mutual

/-- What JavaScript writes fits an `interface{}`. -/
theorem decodable_toJson : (v : JsValue) → GoValue.Decodable v.toJson
  | null => rfl
  | bool _ => rfl
  | num x => decodable_num x
  | str _ => rfl
  | arr xs => (GoValue.ofElements_ok _).mpr (decodable_toElements xs)
  | obj ms => by
    refine (GoValue.ofMembers_ok _ _).mpr fun m hm => ?_
    exact decodable_toMembers ms m ((listed_perm _).mem_iff.mp hm)

theorem decodable_toElements : (xs : List JsValue) → ∀ x ∈ toElements xs, GoValue.Decodable x
  | [], _, hx => absurd hx List.not_mem_nil
  | v :: vs, x, hx => by
    rcases List.mem_cons.mp hx with rfl | hx
    · exact decodable_toJson v
    · exact decodable_toElements vs x hx

theorem decodable_toMembers :
    (ms : List (String × JsValue)) → ∀ m ∈ toMembers ms, GoValue.Decodable m.2
  | [], _, hm => absurd hm List.not_mem_nil
  | (k, v) :: ms, m, hm => by
    rcases List.mem_cons.mp hm with rfl | hm
    · exact decodable_toJson v
    · exact decodable_toMembers ms m hm

end

end JsValue

namespace Api

open GoStruct

/-! ## What is written -/

def JudgeTest.body (t : JudgeTest) : JsValue :=
  .obj [("inputs", t.inputs), ("expected", t.expected), ("isHidden", .bool t.isHidden),
    ("isSample", .bool t.isSample)]

/-- A member that is left out when it is `undefined`. -/
def optionalMember (k : String) (s : Option String) : List (String × JsValue) :=
  (s.map fun s => (k, JsValue.str s)).toList

/-- `x || undefined` on strings. -/
def orUndefined (s : Option String) : Option String := s.filter (· ≠ "")

/-- The object that is published. -/
def JudgeMessage.body (m : JudgeMessage) : JsValue :=
  .obj ([("schemaVersion", .str "v2"), ("submissionId", .str m.submissionId),
      ("problemId", .str m.problemId), ("language", .str m.language), ("code", .str m.code),
      ("tests", .arr (m.tests.map JudgeTest.body)), ("problemType", .str m.problemType),
      ("compareMode", .str m.compareMode)] ++
    (optionalMember "requestId" (orUndefined m.requestId) ++
      (optionalMember "functionName" m.functionName ++ optionalMember "collegeId" m.collegeId)))

/-! ## What is read -/

/-- The inputs of a test; `none` is the nil slice. -/
def JudgeTest.input (t : JudgeTest) : Option (List GoValue) :=
  (writeSlice t.inputs.toJson).join

def JudgeTest.received (t : JudgeTest) : Judge.TestCase where
  input := t.input
  expected := (GoValue.ofJson t.expected.toJson).1
  isSample := t.isSample
  isHidden := t.isHidden

/-- The inputs are an array, or written as `null`. -/
def JudgeTest.Listed (t : JudgeTest) : Prop := (writeSlice t.inputs.toJson).isSome

def JudgeMessage.received (m : JudgeMessage) : Judge.SubmissionMessage where
  schemaVersion := "v2"
  submissionID := m.submissionId
  problemID := m.problemId
  language := m.language
  code := m.code
  tests := some (m.tests.map JudgeTest.received)
  problemType := m.problemType
  functionName := m.functionName.getD ""
  compareMode := m.compareMode
  requestID := m.requestId.getD ""
  collegeID := m.collegeId.getD ""

theorem toJson_obj {ms : List (String × JsValue)}
    (h : ∀ k ∈ ms.map Prod.fst, JsValue.arrayIndex k = none) :
    (JsValue.obj ms).toJson = .obj (ms.map fun m => (m.1, m.2.toJson)) := by
  show Json.obj (JsValue.listed (JsValue.toMembers ms)) = _
  unfold JsValue.listed
  rw [JsValue.toMembers_eq, List.filter_eq_nil_iff.mpr, List.filter_eq_self.mpr]
  · rfl
  · intro m hm
    obtain ⟨m', hm', rfl⟩ := List.mem_map.mp hm
    rw [h _ (List.mem_map_of_mem hm')]
    rfl
  · intro m hm
    obtain ⟨m', hm', rfl⟩ := List.mem_map.mp hm
    rw [h _ (List.mem_map_of_mem hm')]
    exact Bool.false_ne_true

theorem toJson_body (t : JudgeTest) : t.body.toJson = .obj [("inputs", t.inputs.toJson),
    ("expected", t.expected.toJson), ("isHidden", .bool t.isHidden),
    ("isSample", .bool t.isSample)] := by
  refine toJson_obj ?_
  show ∀ k ∈ ["inputs", "expected", "isHidden", "isSample"], JsValue.arrayIndex k = none
  decide

theorem testCase_body (t : JudgeTest) :
    Judge.testCase t.body.toJson {} = (t.received, (writeSlice t.inputs.toJson).isSome) := by
  have hdecode : Judge.testCase t.body.toJson {} =
      ({ input := (slice any .nil t.inputs.toJson none).1
         expected := (GoValue.ofJson t.expected.toJson).1
         isSample := t.isSample
         isHidden := t.isHidden },
        (slice any .nil t.inputs.toJson none).2 &&
          ((GoValue.ofJson t.expected.toJson).2 && true)) := by
    rw [toJson_body]
    rfl
  have hinput : (writeSlice t.inputs.toJson).getD none = t.input := by
    unfold JudgeTest.input
    cases writeSlice t.inputs.toJson with
    | none => rfl
    | some xs => rfl
  have hfits : fitsSlice t.inputs.toJson = (writeSlice t.inputs.toJson).isSome := by
    have hdecodable := JsValue.decodable_toJson t.inputs
    cases hj : t.inputs.toJson with
    | arr js =>
      rw [hj] at hdecodable
      exact hdecodable
    | _ => rfl
  rw [hdecode, overwrites_slice.value, overwrites_slice.flag, hinput, hfits,
    JsValue.decodable_toJson t.expected, Bool.and_true, Bool.and_true]
  rfl

theorem elements_body (ts : List JudgeTest) :
    elements Judge.testCase {} (ts.map fun t => t.body.toJson) [] =
      (ts.map JudgeTest.received, ts.all fun t => (writeSlice t.inputs.toJson).isSome) := by
  rw [elements_nil, List.map_map, List.all_map]
  refine Prod.ext (List.map_congr_left fun t _ => ?_) (congrArg ts.all (funext fun t => ?_))
  · exact congrArg Prod.fst (testCase_body t)
  · exact congrArg Prod.snd (testCase_body t)

/-- The members that are written, with those that may be left out. -/
theorem toJson_message (m : JudgeMessage) :
    m.body.toJson = .obj (([("schemaVersion", .str "v2"), ("submissionId", .str m.submissionId),
        ("problemId", .str m.problemId), ("language", .str m.language), ("code", .str m.code),
        ("tests", .arr (m.tests.map fun t => t.body.toJson)), ("problemType", .str m.problemType),
        ("compareMode", .str m.compareMode)] : List (String × Json)) ++
      (((orUndefined m.requestId).map fun s => ("requestId", Json.str s)).toList ++
        ((m.functionName.map fun s => ("functionName", Json.str s)).toList ++
          (m.collegeId.map fun s => ("collegeId", Json.str s)).toList))) := by
  have hkeys : ∀ (k : String) (o : Option String), (optionalMember k o).map Prod.fst ⊆ [k] := by
    intro k o
    cases o with
    | none => exact List.nil_subset _
    | some s => exact List.Subset.refl _
  have hoptional : ∀ (k : String) (o : Option String),
      (optionalMember k o).map (fun m => (m.1, m.2.toJson)) =
        (o.map fun s => (k, Json.str s)).toList := by
    intro k o
    cases o with
    | none => rfl
    | some s => rfl
  unfold JudgeMessage.body
  rw [toJson_obj]
  · rw [List.map_append, List.map_append, List.map_append, hoptional, hoptional, hoptional]
    have htests : (JsValue.arr (m.tests.map JudgeTest.body)).toJson =
        .arr (m.tests.map fun t => t.body.toJson) := by
      show Json.arr (JsValue.toElements _) = _
      rw [JsValue.toElements_eq, List.map_map]
      rfl
    rw [← htests]
    rfl
  · intro k hk
    have hall : ∀ k ∈ ["schemaVersion", "submissionId", "problemId", "language", "code", "tests",
        "problemType", "compareMode", "requestId", "functionName", "collegeId"],
        JsValue.arrayIndex k = none := by decide
    refine hall k ?_
    rw [List.map_append, List.map_append, List.map_append] at hk
    rcases List.mem_append.mp hk with hk | hk
    · exact List.mem_append_left ["requestId", "functionName", "collegeId"] hk
    · refine List.mem_append_right ["schemaVersion", "submissionId", "problemId", "language",
        "code", "tests", "problemType", "compareMode"] ?_
      rcases List.mem_append.mp hk with hk | hk
      · exact List.mem_append_left _ (hkeys _ _ hk)
      · refine List.mem_cons_of_mem _ ?_
        rcases List.mem_append.mp hk with hk | hk
        · exact List.mem_append_left _ (hkeys _ _ hk)
        · exact List.mem_cons_of_mem _ (hkeys _ _ hk)

/-- The members are stored one after the other; one that is left out leaves its field empty. -/
theorem submissionMessage_members (m : JudgeMessage) (js : List Json)
    (requestId functionName collegeId : Option String) :
    Judge.submissionMessage (.obj (([("schemaVersion", .str "v2"),
        ("submissionId", .str m.submissionId), ("problemId", .str m.problemId),
        ("language", .str m.language), ("code", .str m.code), ("tests", .arr js),
        ("problemType", .str m.problemType), ("compareMode", .str m.compareMode)] :
          List (String × Json)) ++
      ((requestId.map fun s => ("requestId", Json.str s)).toList ++
        ((functionName.map fun s => ("functionName", Json.str s)).toList ++
          (collegeId.map fun s => ("collegeId", Json.str s)).toList)))) {} =
      ({ m.received with
          tests := some (elements Judge.testCase {} js []).1
          requestID := requestId.getD ""
          functionName := functionName.getD ""
          collegeID := collegeId.getD "" },
        (elements Judge.testCase {} js []).2) := by
  rcases requestId with - | requestId
  all_goals rcases functionName with - | functionName
  all_goals rcases collegeId with - | collegeId
  all_goals exact Prod.ext rfl (Bool.and_true _)

/-- **The judge reads the message that the API wrote**, without an error if every list of inputs
is one. -/
theorem unmarshal_body (m : JudgeMessage) :
    unmarshal Judge.submissionMessage (JsValue.stringify m.body) {} =
      (m.received, m.tests.all fun t => (writeSlice t.inputs.toJson).isSome) := by
  have hrequest : (orUndefined m.requestId).getD "" = m.requestId.getD "" := by
    cases m.requestId with
    | none => rfl
    | some s =>
      unfold orUndefined
      by_cases hs : s = ""
      · rw [hs]
        rfl
      · rw [Option.filter_some, if_pos (decide_eq_true hs)]
  unfold unmarshal JsValue.stringify
  rw [Json.parse_print]
  dsimp only
  rw [toJson_message, submissionMessage_members]
  have helements := elements_body m.tests
  rw [helements, hrequest]
  rfl

/-! ## What both sides check -/

/-- The limits that only the judge checks. -/
structure JudgeMessage.WithinLimits (m : JudgeMessage) : Prop where
  inputs : ∀ t ∈ m.tests, (writeSlice t.inputs.toJson).isSome
  code : Text.byteLength m.code ≤ Judge.maxCodeBytes
  tests : m.tests.length ≤ 2000
  functionName : m.problemType = Judge.stdinProblem ∨
    Text.byteLength (m.functionName.getD "") ≤ Judge.maxFuncNameLen

theorem validate_received (m : JudgeMessage) :
    m.received.validate = .ok () ↔ validateSubmissionMessage m = true ∧
      Text.byteLength m.code ≤ Judge.maxCodeBytes ∧ m.tests.length ≤ 2000 ∧
      (m.problemType = Judge.stdinProblem ∨
        Text.byteLength (m.functionName.getD "") ≤ Judge.maxFuncNameLen) := by
  have htype : m.received.effectiveType = Judge.stdinProblem ↔
      m.problemType = Judge.stdinProblem := by
    unfold Judge.SubmissionMessage.effectiveType
    show (if m.problemType = "" then Judge.functionProblem else m.problemType) = _ ↔ _
    split_ifs with hempty
    · rw [hempty]
      decide
    · rfl
  have htests : m.received.tests.any (2000 < ·.length) = true ↔ 2000 < m.tests.length := by
    show decide (2000 < (m.tests.map JudgeTest.received).length) = true ↔ _
    rw [List.length_map, decide_eq_true_eq]
  have hname : orString m.functionName "" = m.functionName.getD "" := by
    cases m.functionName with
    | none => rfl
    | some s =>
      unfold orString
      dsimp only
      split_ifs with hs
      · exact hs.symm
      · rfl
  have hchecks : validateSubmissionMessage m = true ↔ m.submissionId ≠ "" ∧ m.problemId ≠ "" ∧
      m.language ≠ "" ∧ m.code ≠ "" ∧
        (m.problemType = Judge.stdinProblem ∨ m.functionName.getD "" ≠ "") := by
    unfold validateSubmissionMessage Judge.stdinProblem
    rw [hname]
    simp only [Bool.and_eq_true, Bool.or_eq_true, decide_eq_true_eq, and_assoc]
  have hschema : ¬m.received.schemaVersion = "" := by
    show ¬"v2" = ""
    decide
  rw [hchecks]
  unfold Judge.SubmissionMessage.validate
  rw [if_neg hschema]
  simp only [htype, htests]
  constructor
  · intro h
    split_ifs at h with hid hproblem hlanguage hcode hsize hmany hstdin hempty hlong
    · exact ⟨⟨hid, hproblem, hlanguage, hcode, .inl hstdin⟩, not_lt.mp hsize, not_lt.mp hmany,
        .inl hstdin⟩
    · exact ⟨⟨hid, hproblem, hlanguage, hcode, .inr hempty⟩, not_lt.mp hsize, not_lt.mp hmany,
        .inr (not_lt.mp hlong)⟩
  · rintro ⟨⟨hid, hproblem, hlanguage, hcode, hname⟩, hsize, hmany, hlong⟩
    refine (if_neg hid).trans ((if_neg hproblem).trans ((if_neg hlanguage).trans ?_))
    refine (if_neg hcode).trans ((if_neg (not_lt.mpr hsize)).trans ?_)
    refine (if_neg (not_lt.mpr hmany)).trans ?_
    by_cases hstdin : m.problemType = Judge.stdinProblem
    · exact if_pos hstdin
    · refine (if_neg hstdin).trans ((if_neg (hname.resolve_left hstdin)).trans ?_)
      exact if_neg (not_lt.mpr (hlong.resolve_left hstdin))

/-- **The judge takes what the API takes, within the limits that only the judge checks**, and
then it has the message that was published. -/
theorem accepted_iff (decodeError : String → String) (m : JudgeMessage) :
    Judge.validateAndDecodeSubmission decodeError (JsValue.stringify m.body) =
        ({ m.received with
            functionName := (Judge.sanitizeFunctionName (m.functionName.getD "")).1 }, none) ↔
      validateSubmissionMessage m = true ∧ m.WithinLimits := by
  have hread := unmarshal_body m
  constructor
  · intro h
    obtain ⟨m', hm', hvalid, -⟩ := Consumer.of_decoded h
    obtain ⟨rfl, hlisted⟩ := Prod.mk.inj (hread.symm.trans hm')
    obtain ⟨hchecked, hcode, htests, hname⟩ := (validate_received m).mp hvalid
    exact ⟨hchecked, List.all_eq_true.mp hlisted, hcode, htests, hname⟩
  · rintro ⟨hchecked, hlisted, hcode, htests, hname⟩
    rw [List.all_eq_true.mpr hlisted] at hread
    exact Judge.validateAndDecodeSubmission_eq decodeError hread
      ((validate_received m).mpr ⟨hchecked, hcode, htests, hname⟩)

end Api
