/-
# Messages that go back to the queue

A submission that finds no free container is published again, with its number of retries
incremented (`processSubmission` of `main.go`).  Its new body is the message that was
decoded, with the function name that the sanitizer left, written by `json.Marshal`.

* `submissionMessageTags` : the tags of `SubmissionMessage`, for writing and for reading.
* `Decoded` : what holds of a message after `json.Unmarshal`, with or without an error.
* `unmarshal_retryBody` : what the next delivery reads.
-/
import JudgePlatform.Judge.FunctionNames
import JudgePlatform.Judge.ResultRoundTrip
import JudgePlatform.Library.DecodedValues

namespace Judge

open GoRecord

/-! ## Tags -/

def testCaseTags : List (TaggedField TestCase) := [
  always "inputs" (·.input) (fun t v => { t with input := v }) (nilableSlice any .nil),
  always "expected" (·.expected) (fun t v => { t with expected := v }) any,
  always "isSample" (·.isSample) (fun t b => { t with isSample := b }) bool,
  always "isHidden" (·.isHidden) (fun t b => { t with isHidden := b }) bool]

def parameterTags : List (TaggedField Parameter) := [
  always "name" (·.name) (fun p s => { p with name := s }) string,
  always "type" (·.type) (fun p s => { p with type := s }) string]

def compareConfigTags : List (TaggedField CompareConfig) := [
  always "mode" (·.mode) (fun c s => { c with mode := s }) string,
  always "floatTolerance" (·.floatTolerance) (fun c x => { c with floatTolerance := x }) float,
  always "orderInsensitive" (·.orderInsensitive) (fun c b => { c with orderInsensitive := b }) bool,
  always "requireDeepCopy" (·.requireDeepCopy) (fun c b => { c with requireDeepCopy := b }) bool]

def submissionMessageTags : List (TaggedField SubmissionMessage) := [
  always "schemaVersion" (·.schemaVersion) (fun m s => { m with schemaVersion := s }) string,
  always "submissionId" (·.submissionID) (fun m s => { m with submissionID := s }) string,
  always "problemId" (·.problemID) (fun m s => { m with problemID := s }) string,
  always "language" (·.language) (fun m s => { m with language := s }) string,
  always "code" (·.code) (fun m s => { m with code := s }) string,
  always "tests" (·.tests) (fun m ts => { m with tests := ts })
    (nilableSlice (record testCaseTags) {}),
  omitEmpty "problemType" (·.problemType) (fun m s => { m with problemType := s }) string,
  always "functionName" (·.functionName) (fun m s => { m with functionName := s }) string,
  omitEmpty "parameters" (·.parameters) (fun m ps => { m with parameters := ps })
    (nilableSlice (record parameterTags) {}),
  omitEmpty "returnType" (·.returnType) (fun m s => { m with returnType := s }) string,
  omitEmpty "compareMode" (·.compareMode) (fun m s => { m with compareMode := s }) string,
  -- a struct is never empty
  omitEmpty "compareConfig" (·.compareConfig) (fun m c => { m with compareConfig := c })
    (record compareConfigTags),
  omitEmpty "requestId" (·.requestID) (fun m s => { m with requestID := s }) string,
  omitEmpty "retryCount" (·.retryCount) (fun m n => { m with retryCount := n }) int,
  omitEmpty "collegeId" (·.collegeID) (fun m s => { m with collegeID := s }) string]

theorem nodup_submissionMessageTags :
    (submissionMessageTags.map TaggedField.name).Nodup := by
  decide

/-- The tags read as the decoder of messages does. -/
theorem decode_submissionMessageTags : (record submissionMessageTags).decode = submissionMessage :=
  rfl

/-- `json.Marshal` of a message. -/
def SubmissionMessage.toJson (sm : SubmissionMessage) : Except String Json :=
  (record submissionMessageTags).encode jsonEncoding sm

/-- The body of the retry, from the body that was delivered and the message it was read as. -/
def retryBody (body : String) (sm : SubmissionMessage) : String :=
  match { sm with retryCount := sm.retryCount + 1 }.toJson with
  | .ok j => String.ofList (Json.print Json.goEscape j)
  | .error _ => body

/-! ## What decoding leaves -/

structure TestCase.Decoded (t : TestCase) : Prop where
  input : ∀ xs, t.input = some xs → ∀ x ∈ xs, x.Decoded
  expected : t.expected.Decoded

structure SubmissionMessage.Decoded (sm : SubmissionMessage) : Prop where
  tests : ∀ ts, sm.tests = some ts → ∀ t ∈ ts, t.Decoded
  tolerance : ∃ n, JsonNumber.formatFloat sm.compareConfig.floatTolerance = some n
  retryCount : IsInt64 sm.retryCount

theorem decoded_testCase (j : Json) (t : TestCase) (h : t.Decoded) : (testCase j t).1.Decoded := by
  have hany : ∀ (j : Json) (x : GoValue), x.Decoded → (GoStruct.any j x).1.Decoded :=
    fun j x _ => GoValue.decoded_ofJson j
  have hfields : ∀ f ∈ testCaseFields, ∀ j t, TestCase.Decoded t → TestCase.Decoded (f.store j t).1 := by
    unfold testCaseFields
    simp only [List.forall_mem_cons]
    refine ⟨fun j t h => ⟨?_, h.expected⟩, fun j t h => ⟨h.input, ?_⟩,
      fun j t h => ⟨h.input, h.expected⟩, fun j t h => ⟨h.input, h.expected⟩,
      fun f hf => absurd hf List.not_mem_nil⟩
    · exact slice_keeps hany .nil j h.input
    · exact GoValue.decoded_ofJson j
  cases j with
  | obj ms => exact storeMembers_keeps hfields ms h
  | _ => exact h

theorem decoded_float (j : Json) {x : Binary64} (h : ∃ n, JsonNumber.formatFloat x = some n) :
    ∃ n, JsonNumber.formatFloat (GoStruct.float j x).1 = some n := by
  cases j with
  | num m =>
    unfold GoStruct.float
    simp only
    cases hm : JsonNumber.parseFloat m with
    | none => exact h
    | some y => exact GoValue.exists_formatFloat hm
  | _ => exact h

theorem decoded_int (j : Json) {n : ℤ} (h : IsInt64 n) : IsInt64 (GoStruct.int j n).1 := by
  cases j with
  | num m =>
    unfold GoStruct.int
    simp only
    cases hm : JsonNumber.parseInt64 m with
    | none => exact h
    | some k =>
      unfold JsonNumber.parseInt64 at hm
      split at hm
      · split_ifs at hm with hk
        obtain rfl := Option.some.inj hm
        exact hk
      · cases hm
  | _ => exact h

theorem decoded_compareConfig (j : Json) {c : CompareConfig}
    (h : ∃ n, JsonNumber.formatFloat c.floatTolerance = some n) :
    ∃ n, JsonNumber.formatFloat (compareConfig j c).1.floatTolerance = some n := by
  cases j with
  | obj ms =>
    apply storeMembers_keeps
      (K := fun c : CompareConfig => ∃ n, JsonNumber.formatFloat c.floatTolerance = some n) ?_ ms h
    simp only [List.forall_mem_cons]
    exact ⟨fun _ _ h => h, fun j _ h => decoded_float j h, fun _ _ h => h, fun _ _ h => h,
      fun f hf => absurd hf List.not_mem_nil⟩
  | _ => exact h

/-- **What is left of a body** after `json.Unmarshal`, whether or not it fits. -/
theorem decoded_unmarshal (body : String) :
    (GoStruct.unmarshal submissionMessage body {}).1.Decoded := by
  have hempty : SubmissionMessage.Decoded {} := by
    refine ⟨?_, ⟨_, rfl⟩, ⟨by decide, by decide⟩⟩
    intro ts h
    cases h
  have hempty' : TestCase.Decoded {} := by
    refine ⟨?_, .nil⟩
    intro xs h
    cases h
  have hfields : ∀ j (sm : SubmissionMessage), sm.Decoded → (submissionMessage j sm).1.Decoded := by
    intro j sm h
    cases j with
    | obj ms =>
      apply storeMembers_keeps ?_ ms h
      have hkept : ∀ {sm sm' : SubmissionMessage}, sm'.tests = sm.tests →
          sm'.compareConfig = sm.compareConfig → sm'.retryCount = sm.retryCount →
          sm.Decoded → sm'.Decoded := by
        rintro sm sm' htests hconfig hretry ⟨h₁, h₂, h₃⟩
        exact ⟨htests ▸ h₁, hconfig ▸ h₂, hretry ▸ h₃⟩
      simp only [List.forall_mem_cons]
      refine ⟨fun _ _ => hkept rfl rfl rfl, fun _ _ => hkept rfl rfl rfl,
        fun _ _ => hkept rfl rfl rfl, fun _ _ => hkept rfl rfl rfl,
        fun _ _ => hkept rfl rfl rfl, fun j sm h => ⟨?_, h.tolerance, h.retryCount⟩,
        fun _ _ => hkept rfl rfl rfl, fun _ _ => hkept rfl rfl rfl,
        fun _ _ => hkept rfl rfl rfl, fun _ _ => hkept rfl rfl rfl,
        fun _ _ => hkept rfl rfl rfl, fun j sm h => ⟨h.tests, ?_, h.retryCount⟩,
        fun _ _ => hkept rfl rfl rfl, fun j sm h => ⟨h.tests, h.tolerance, decoded_int j h.retryCount⟩,
        fun _ _ => hkept rfl rfl rfl, fun f hf => absurd hf List.not_mem_nil⟩
      · exact slice_keeps decoded_testCase hempty' j h.tests
      · exact decoded_compareConfig j h.tolerance
    | _ => exact h
  unfold GoStruct.unmarshal
  split
  · exact hfields _ _ hempty
  · exact hempty

/-! ## Writing -/

theorem testCase_ok {t : TestCase} (h : t.Decoded) :
    ∃ j, (record testCaseTags).encode jsonEncoding t = .ok j := by
  apply record_ok
  unfold testCaseTags
  simp only [List.forall_mem_cons]
  refine ⟨always_ok ?_, always_ok h.expected.exists_marshal, always_ok ⟨_, rfl⟩,
    always_ok ⟨_, rfl⟩, fun f hf => absurd hf List.not_mem_nil⟩
  exact nilableSlice_ok fun xs hxs x hx => (h.input xs hxs x hx).exists_marshal

theorem parameter_ok (p : Parameter) : ∃ j, (record parameterTags).encode jsonEncoding p = .ok j := by
  apply record_ok
  unfold parameterTags
  simp only [List.forall_mem_cons]
  exact ⟨always_ok ⟨_, rfl⟩, always_ok ⟨_, rfl⟩, fun f hf => absurd hf List.not_mem_nil⟩

theorem compareConfig_ok {c : CompareConfig}
    (h : ∃ n, JsonNumber.formatFloat c.floatTolerance = some n) :
    ∃ j, (record compareConfigTags).encode jsonEncoding c = .ok j := by
  obtain ⟨n, hn⟩ := h
  apply record_ok
  unfold compareConfigTags
  simp only [List.forall_mem_cons]
  exact ⟨always_ok ⟨_, rfl⟩, always_ok (GoValue.Decoded.float hn).exists_marshal,
    always_ok ⟨_, rfl⟩, always_ok ⟨_, rfl⟩, fun f hf => absurd hf List.not_mem_nil⟩

/-- **A message that was decoded is written** without an error. -/
theorem SubmissionMessage.Decoded.exists_toJson {sm : SubmissionMessage} (h : sm.Decoded) :
    ∃ j, sm.toJson = .ok j := by
  apply record_ok
  unfold submissionMessageTags
  simp only [List.forall_mem_cons]
  refine ⟨always_ok ⟨_, rfl⟩, always_ok ⟨_, rfl⟩, always_ok ⟨_, rfl⟩, always_ok ⟨_, rfl⟩,
    always_ok ⟨_, rfl⟩, always_ok ?_, omitEmpty_ok ⟨_, rfl⟩, always_ok ⟨_, rfl⟩, omitEmpty_ok ?_,
    omitEmpty_ok ⟨_, rfl⟩, omitEmpty_ok ⟨_, rfl⟩, omitEmpty_ok (compareConfig_ok h.tolerance),
    omitEmpty_ok ⟨_, rfl⟩, omitEmpty_ok ⟨_, rfl⟩, omitEmpty_ok ⟨_, rfl⟩,
    fun f hf => absurd hf List.not_mem_nil⟩
  · exact nilableSlice_ok fun ts hts t ht => testCase_ok (h.tests ts hts t ht)
  · exact nilableSlice_ok fun ps _ p _ => parameter_ok p

/-! ## Reading again -/

/-- The values of a test as JSON represents them. -/
def TestCase.represented (t : TestCase) : TestCase :=
  { t with
    input := t.input.map (List.map Judge.represented)
    expected := Judge.represented t.expected }

/-- The message that a message is read as after it was written; an empty list of parameters is
left out. -/
def SubmissionMessage.represented (sm : SubmissionMessage) : SubmissionMessage :=
  { sm with
    tests := sm.tests.map (List.map TestCase.represented)
    parameters := sm.parameters.filter (!·.isEmpty) }

theorem testCase_reads {t : TestCase} (h : t.Decoded) :
    (record testCaseTags).Reads {} t t.represented := by
  intro j hj
  have hmem : ∀ {i : ℕ} (hi : i < testCaseTags.length), testCaseTags[i] ∈ testCaseTags :=
    fun hi => List.getElem_mem hi
  rw [decode_encode (by decide) hj]
  show List.foldl (readField t) ({}, true) [_, _, _, _] = _
  simp only [List.foldl_cons, List.foldl_nil]
  rw [readField_always hj (hmem (i := 0) (by decide))
    (reads_nilableSlice fun xs hxs x hx => reads_any (h.input xs hxs x hx).sized _)]
  rw [readField_always hj (hmem (i := 1) (by decide)) (reads_any h.expected.sized _)]
  rw [readField_always hj (hmem (i := 2) (by decide)) (reads_bool _ _)]
  rw [readField_always hj (hmem (i := 3) (by decide)) (reads_bool _ _)]
  rfl

theorem parameter_reads (p : Parameter) : (record parameterTags).Reads {} p p := by
  intro j hj
  have hmem : ∀ {i : ℕ} (hi : i < parameterTags.length), parameterTags[i] ∈ parameterTags :=
    fun hi => List.getElem_mem hi
  rw [decode_encode (by decide) hj]
  show List.foldl (readField p) ({}, true) [_, _] = _
  simp only [List.foldl_cons, List.foldl_nil]
  rw [readField_always hj (hmem (i := 0) (by decide)) (reads_string _ _)]
  rw [readField_always hj (hmem (i := 1) (by decide)) (reads_string _ _)]

theorem compareConfig_reads {c : CompareConfig}
    (h : ∃ n, JsonNumber.formatFloat c.floatTolerance = some n) :
    (record compareConfigTags).Reads {} c c := by
  obtain ⟨n, hn⟩ := h
  intro j hj
  have hmem : ∀ {i : ℕ} (hi : i < compareConfigTags.length),
      compareConfigTags[i] ∈ compareConfigTags := fun hi => List.getElem_mem hi
  rw [decode_encode (by decide) hj]
  show List.foldl (readField c) ({}, true) [_, _, _, _] = _
  simp only [List.foldl_cons, List.foldl_nil]
  rw [readField_always hj (hmem (i := 0) (by decide)) (reads_string _ _)]
  rw [readField_always hj (hmem (i := 1) (by decide)) (reads_float hn _)]
  rw [readField_always hj (hmem (i := 2) (by decide)) (reads_bool _ _)]
  rw [readField_always hj (hmem (i := 3) (by decide)) (reads_bool _ _)]

theorem parameters_reads (ps : Option (List Parameter)) :
    let c := nilableSlice (record parameterTags) {}
    (c.isEmpty ps = false → c.Reads none ps (ps.filter (!·.isEmpty))) ∧
      (c.isEmpty ps = true → ps.filter (!·.isEmpty) = none) := by
  have h := @reads_nilableSlice _ (record parameterTags) {} id ps fun ps _ p _ => parameter_reads p
  rw [List.map_id_fun, Option.map_id] at h
  rcases ps with _ | _ | ⟨p, ps⟩
  · exact ⟨fun hc => absurd hc (by decide), fun _ => rfl⟩
  · exact ⟨fun hc => absurd hc (by decide), fun _ => rfl⟩
  · exact ⟨fun _ => h, fun hc => absurd hc Bool.false_ne_true⟩

/-- **A message is read as it was written**, the values of its tests as JSON represents
them. -/
theorem submissionMessage_reads {sm : SubmissionMessage} (h : sm.Decoded) :
    (record submissionMessageTags).Reads {} sm sm.represented := by
  intro j hj
  have hmem : ∀ {i : ℕ} (hi : i < submissionMessageTags.length),
      submissionMessageTags[i] ∈ submissionMessageTags := fun hi => List.getElem_mem hi
  have hparameters := parameters_reads sm.parameters
  rw [decode_encode nodup_submissionMessageTags hj]
  show List.foldl (readField sm) ({}, true) [_, _, _, _, _, _, _, _, _, _, _, _, _, _, _] = _
  simp only [List.foldl_cons, List.foldl_nil]
  rw [readField_always hj (hmem (i := 0) (by decide)) (reads_string _ _)]
  rw [readField_always hj (hmem (i := 1) (by decide)) (reads_string _ _)]
  rw [readField_always hj (hmem (i := 2) (by decide)) (reads_string _ _)]
  rw [readField_always hj (hmem (i := 3) (by decide)) (reads_string _ _)]
  rw [readField_always hj (hmem (i := 4) (by decide)) (reads_string _ _)]
  rw [readField_always hj (hmem (i := 5) (by decide))
    (reads_nilableSlice fun ts hts t ht => testCase_reads (h.tests ts hts t ht))]
  rw [readField_omitEmpty hj (hmem (i := 6) (by decide)) (reads_string _ _) eq_empty_of_isEmpty rfl]
  rw [readField_always hj (hmem (i := 7) (by decide)) (reads_string _ _)]
  rw [readField_omitEmpty_of_written hj (hmem (i := 8) (by decide)) hparameters.1 hparameters.2 rfl]
  rw [readField_omitEmpty hj (hmem (i := 9) (by decide)) (reads_string _ _) eq_empty_of_isEmpty rfl]
  rw [readField_omitEmpty hj (hmem (i := 10) (by decide)) (reads_string _ _) eq_empty_of_isEmpty
    rfl]
  rw [readField_omitEmpty hj (hmem (i := 11) (by decide)) (compareConfig_reads h.tolerance)
    (fun h => absurd h Bool.false_ne_true) rfl]
  rw [readField_omitEmpty hj (hmem (i := 12) (by decide)) (reads_string _ _) eq_empty_of_isEmpty
    rfl]
  rw [readField_omitEmpty hj (hmem (i := 13) (by decide)) (reads_int h.retryCount _)
    eq_zero_of_isEmpty rfl]
  rw [readField_omitEmpty hj (hmem (i := 14) (by decide)) (reads_string _ _) eq_empty_of_isEmpty
    rfl]
  rfl

/-- **What the next delivery reads**: the message with one more retry. -/
theorem unmarshal_retryBody {sm : SubmissionMessage} (h : sm.Decoded)
    (hretry : sm.retryCount + 1 < 2 ^ 63) (body : String) :
    GoStruct.unmarshal submissionMessage (retryBody body sm) {} =
      ({ sm.represented with retryCount := sm.retryCount + 1 }, true) := by
  have hnext : SubmissionMessage.Decoded { sm with retryCount := sm.retryCount + 1 } := by
    obtain ⟨hlow, -⟩ := h.retryCount
    exact ⟨h.tests, h.tolerance, show -2 ^ 63 ≤ sm.retryCount + 1 by omega, hretry⟩
  obtain ⟨j, hj⟩ := hnext.exists_toJson
  unfold retryBody GoStruct.unmarshal
  rw [hj]
  simp only
  rw [Json.parse_print]
  exact submissionMessage_reads hnext j hj

end Judge
