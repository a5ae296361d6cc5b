/-
# The function names of submission messages

A message from the queue (`pkg/models/submission_message.go`) is decoded, validated and has
its function name made an identifier, before the generator of the wrapper (`generator.go`)
makes an identifier of it once more.

* `validateAndDecodeSubmission` : what the judge does with a message.
* `sanitizeFunctionName`, `sanitizeIdentifier` : the two sanitizers.  They differ in the
  length that they cut at, and the first one drops the underscores at the end.
* `function_name_iff` : when the name that is left in the message is an identifier.
-/
import JudgePlatform.Judge.RunHandler

namespace Judge

open GoStruct

/-! ## Identifiers -/

def identStart (c : Char) : Bool := c.isAlpha || c = '_'

def identChar (c : Char) : Bool := c.isAlphanum || c = '_'

/-- `validIdent`, the same expression in both packages. -/
def validIdent (name : String) : Bool :=
  match name.toList with
  | [] => false
  | c :: cs => identStart c && cs.all identChar && cs.length ≤ 127

/-- The characters of a name, with those that no identifier has replaced. -/
def replaceInvalid (cs : List Char) : List Char := cs.map fun c => if identChar c then c else '_'

/-- A first character is put before a name that starts with none. -/
def prefixed (cs : List Char) : List Char :=
  if cs.head?.any identStart then cs else 'f' :: '_' :: cs

/-- What both sanitizers make of a name.  All characters are ASCII where it is cut. -/
def sanitized (limit : ℕ) (name : String) : List Char :=
  (prefixed (replaceInvalid name.toList)).take limit

def maxCodeBytes : ℕ := 200 * 1024
def maxFuncNameLen : ℕ := 128

/-- `SanitizeFunctionName`, of the name of a message. -/
def sanitizeFunctionName (name : String) : String × Bool :=
  if validIdent name then (name, true)
  else (String.ofList ((sanitized maxFuncNameLen name).rdropWhile (· = '_')), false)

/-- `sanitizeIdentifier` of the generator. -/
def sanitizeIdentifier (name : String) : String × Bool :=
  if validIdent name then (name, true) else (String.ofList (sanitized 127 name), false)

/-! ## Messages -/

structure SubmissionMessage where
  schemaVersion : String := ""
  submissionID : String := ""
  problemID : String := ""
  language : String := ""
  code : String := ""
  tests : Option (List TestCase) := none
  problemType : String := ""
  functionName : String := ""
  parameters : Option (List Parameter) := none
  returnType : String := ""
  compareMode : String := ""
  compareConfig : CompareConfig := {}
  requestID : String := ""
  retryCount : ℤ := 0
  collegeID : String := ""

def parameter : Decoder Parameter :=
  struct [
    field "name" (·.name) (fun p s => { p with name := s }) string,
    field "type" (·.type) (fun p s => { p with type := s }) string]

def compareConfig : Decoder CompareConfig :=
  struct [
    field "mode" (·.mode) (fun c s => { c with mode := s }) string,
    field "floatTolerance" (·.floatTolerance) (fun c x => { c with floatTolerance := x }) float,
    field "orderInsensitive" (·.orderInsensitive) (fun c b => { c with orderInsensitive := b }) bool,
    field "requireDeepCopy" (·.requireDeepCopy) (fun c b => { c with requireDeepCopy := b }) bool]

def submissionMessage : Decoder SubmissionMessage :=
  struct [
    field "schemaVersion" (·.schemaVersion) (fun m s => { m with schemaVersion := s }) string,
    field "submissionId" (·.submissionID) (fun m s => { m with submissionID := s }) string,
    field "problemId" (·.problemID) (fun m s => { m with problemID := s }) string,
    field "language" (·.language) (fun m s => { m with language := s }) string,
    field "code" (·.code) (fun m s => { m with code := s }) string,
    field "tests" (·.tests) (fun m ts => { m with tests := ts }) (slice testCase {}),
    field "problemType" (·.problemType) (fun m s => { m with problemType := s }) string,
    field "functionName" (·.functionName) (fun m s => { m with functionName := s }) string,
    field "parameters" (·.parameters) (fun m ps => { m with parameters := ps })
      (slice parameter {}),
    field "returnType" (·.returnType) (fun m s => { m with returnType := s }) string,
    field "compareMode" (·.compareMode) (fun m s => { m with compareMode := s }) string,
    field "compareConfig" (·.compareConfig) (fun m c => { m with compareConfig := c })
      compareConfig,
    field "requestId" (·.requestID) (fun m s => { m with requestID := s }) string,
    field "retryCount" (·.retryCount) (fun m n => { m with retryCount := n }) int,
    field "collegeId" (·.collegeID) (fun m s => { m with collegeID := s }) string]

/-- `EffectiveType`. -/
def SubmissionMessage.effectiveType (sm : SubmissionMessage) : String :=
  if sm.problemType = "" then functionProblem else sm.problemType

/-- `Validate`. -/
def SubmissionMessage.validate (sm : SubmissionMessage) : Except String Unit :=
  if sm.schemaVersion = "" then .error "schemaVersion is required"
  else if sm.submissionID = "" then .error "submissionId is required"
  else if sm.problemID = "" then .error "problemId is required"
  else if sm.language = "" then .error "language is required"
  else if sm.code = "" then .error "code is required"
  else if maxCodeBytes < Text.byteLength sm.code then .error "code size exceeds maximum allowed"
  else if sm.tests.any (2000 < ·.length) then .error "too many test cases"
  else if sm.effectiveType = stdinProblem then .ok ()
  else if sm.functionName = "" then .error "functionName is required"
  else if maxFuncNameLen < Text.byteLength sm.functionName then .error "functionName too long"
  else .ok ()

/-- `validateAndDecodeSubmission`, with the error if there is one; `decodeError` is what the
decoder says of a body. -/
def validateAndDecodeSubmission (decodeError : String → String) (body : String) :
    SubmissionMessage × Option String :=
  let decoded := unmarshal submissionMessage body {}
  if decoded.2 then
    match decoded.1.validate with
    | .error e => (decoded.1, some ("invalid submission message: " ++ e))
    | .ok () =>
      let name := sanitizeFunctionName decoded.1.functionName
      if name.2 then (decoded.1, none) else ({ decoded.1 with functionName := name.1 }, none)
  else (decoded.1, some ("error unmarshalling submission message: " ++ decodeError body))

/-! ## What the sanitizer makes of a name -/

theorem identChar_replaceInvalid {cs : List Char} {c : Char} (h : c ∈ replaceInvalid cs) :
    identChar c = true := by
  obtain ⟨d, -, rfl⟩ := List.mem_map.mp h
  split_ifs with hd
  · exact hd
  · decide

/-- The characters that are left of a name, besides underscores. -/
theorem mem_replaceInvalid {cs : List Char} {c : Char} (hc : c ≠ '_') :
    c ∈ replaceInvalid cs ↔ c ∈ cs ∧ c.isAlphanum = true := by
  have halnum : identChar c = c.isAlphanum := by
    unfold identChar
    rw [decide_eq_false hc, Bool.or_false]
  constructor
  · intro h
    obtain ⟨d, hd, rfl⟩ := List.mem_map.mp h
    split_ifs at hc halnum ⊢ with hident
    · exact ⟨hd, halnum ▸ hident⟩
    · exact absurd rfl hc
  · rintro ⟨hmem, h⟩
    refine List.mem_map.mpr ⟨c, hmem, ?_⟩
    rw [if_pos (halnum.trans h)]

theorem identChar_prefixed {cs : List Char} (h : ∀ c ∈ cs, identChar c = true) :
    ∀ c ∈ prefixed cs, identChar c = true := by
  unfold prefixed
  split_ifs
  · exact h
  · rw [List.forall_mem_cons, List.forall_mem_cons]
    exact ⟨by decide, by decide, h⟩

theorem prefixed_eq_cons (cs : List Char) :
    ∃ c ds, prefixed cs = c :: ds ∧ identStart c = true := by
  unfold prefixed
  split_ifs with h
  · cases cs with
    | nil => exact absurd h (by simp)
    | cons c ds => exact ⟨c, ds, rfl, h⟩
  · exact ⟨'f', '_' :: cs, rfl, by decide⟩

/-- **An identifier is what begins a sanitized name**, unless nothing is left of it. -/
theorem validIdent_of_prefix {cs ds : List Char} (h : ∀ c ∈ cs, identChar c = true)
    (hds : ds <+: (prefixed cs).take maxFuncNameLen) :
    validIdent (String.ofList ds) = true ↔ ds ≠ [] := by
  unfold validIdent
  rw [String.toList_ofList]
  obtain ⟨c, rest, hcons, hstart⟩ := prefixed_eq_cons cs
  have hchars := identChar_prefixed h
  have hlength := hds.length_le
  rw [List.length_take] at hlength
  unfold maxFuncNameLen at hds hlength
  cases ds with
  | nil => exact iff_of_false Bool.false_ne_true (absurd rfl)
  | cons d ds =>
    refine iff_of_true ?_ (List.cons_ne_nil d ds)
    have hsub : ∀ e ∈ d :: ds, identChar e = true := by
      intro e he
      exact hchars e (List.mem_of_mem_take (hds.subset he))
    rw [hcons, List.take_succ_cons, List.cons_prefix_cons] at hds
    rw [List.length_cons] at hlength
    simp only [Bool.and_eq_true, List.all_eq_true, decide_eq_true_eq]
    exact ⟨⟨hds.1 ▸ hstart, fun e he => hsub e (List.mem_cons_of_mem d he)⟩, by omega⟩

theorem length_le_byteLength (s : String) : s.toList.length ≤ Text.byteLength s := by
  unfold Text.byteLength
  have h := List.length_le_sum_of_one_le (s.toList.map Char.utf8Size) fun n hn => by
    obtain ⟨c, -, rfl⟩ := List.mem_map.mp hn
    exact Char.utf8Size_pos c
  rwa [List.length_map] at h

/-- **What is left of a name**: nothing, if it has no letter and no digit. -/
theorem sanitized_ne_nil_iff {name : String} (hne : name ≠ "")
    (hlength : Text.byteLength name ≤ maxFuncNameLen) :
    (sanitized maxFuncNameLen name).rdropWhile (· = '_') ≠ [] ↔
      ∃ c ∈ name.toList, c.isAlphanum = true := by
  have hchars := length_le_byteLength name
  have hreplaced : (replaceInvalid name.toList).length = name.toList.length := List.length_map _
  have hexists : (sanitized maxFuncNameLen name).rdropWhile (· = '_') ≠ [] ↔
      ∃ c ∈ sanitized maxFuncNameLen name, c ≠ '_' := by
    rw [Ne, List.rdropWhile_eq_nil_iff]
    simp
  rw [hexists]
  unfold sanitized prefixed
  split_ifs with hstart
  · rw [List.take_of_length_le (by omega)]
    constructor
    · rintro ⟨c, hc, hunderscore⟩
      exact ⟨c, (mem_replaceInvalid hunderscore).mp hc⟩
    · rintro ⟨c, hc, halnum⟩
      have hunderscore : c ≠ '_' := by
        rintro rfl
        exact absurd halnum (by decide)
      exact ⟨c, (mem_replaceInvalid hunderscore).mpr ⟨hc, halnum⟩, hunderscore⟩
  · -- the name starts with a digit, and the prefix has a letter
    refine iff_of_true ⟨'f', List.mem_cons_self, by decide⟩ ?_
    cases hname : name.toList with
    | nil => exact absurd (String.toList_eq_nil_iff.mp hname) hne
    | cons c cs =>
      rw [hname] at hstart
      have hhead : ¬identStart (if identChar c then c else '_') = true := hstart
      split_ifs at hhead with hc
      · refine ⟨c, List.mem_cons_self, ?_⟩
        unfold identChar at hc
        unfold identStart at hhead
        rw [Bool.or_eq_true] at hc hhead
        exact hc.resolve_right fun h => hhead (.inr h)
      · exact absurd (show identStart '_' = true by decide) hhead

/-! ## The names that messages are left with -/

/-- What the wrapper can be generated for: an identifier that no sanitizer changes. -/
structure WellNamed (name : String) : Prop where
  nonempty : name ≠ ""
  ident : validIdent name = true
  short : name.length ≤ 128
  fixed : sanitizeFunctionName name = (name, true)
  generated : sanitizeIdentifier name = (name, true)

theorem wellNamed_iff (name : String) : WellNamed name ↔ validIdent name = true := by
  refine ⟨WellNamed.ident, fun h => ⟨?_, h, ?_, if_pos h, if_pos h⟩⟩
  · rintro rfl
    exact Bool.noConfusion h
  · unfold validIdent at h
    rw [← String.length_toList]
    cases hname : name.toList with
    | nil => exact Nat.zero_le _
    | cons c cs =>
      rw [hname] at h
      simp only [Bool.and_eq_true, decide_eq_true_eq] at h
      rw [List.length_cons]
      omega

/-- What `Validate` has made sure of in function mode. -/
theorem functionName_of_validate {m : SubmissionMessage} (h : m.validate = .ok ())
    (hmode : m.effectiveType ≠ stdinProblem) :
    m.functionName ≠ "" ∧ Text.byteLength m.functionName ≤ maxFuncNameLen := by
  unfold SubmissionMessage.validate at h
  split_ifs at h with _ _ _ _ _ _ _ hempty hlong
  exact ⟨hempty, not_lt.mp hlong⟩

/-- A valid message is left as it is, but for its function name. -/
theorem validateAndDecodeSubmission_eq (decodeError : String → String) {body : String}
    {m : SubmissionMessage} (hdecode : unmarshal submissionMessage body {} = (m, true))
    (hvalid : m.validate = .ok ()) :
    validateAndDecodeSubmission decodeError body =
      ({ m with functionName := (sanitizeFunctionName m.functionName).1 }, none) := by
  unfold validateAndDecodeSubmission
  simp only [hdecode, hvalid, if_true]
  by_cases hident : validIdent m.functionName = true
  · have hname : sanitizeFunctionName m.functionName = (m.functionName, true) := if_pos hident
    rw [hname]
    rfl
  · have hname : (sanitizeFunctionName m.functionName).2 = false := by
      unfold sanitizeFunctionName
      rw [if_neg hident]
    rw [hname]
    rfl

/-- The first sanitizer makes an identifier of a name with an ASCII letter or digit. -/
theorem validIdent_sanitizeFunctionName {name : String} (hne : name ≠ "")
    (hlength : Text.byteLength name ≤ maxFuncNameLen) :
    validIdent (sanitizeFunctionName name).1 = true ↔
      validIdent name = true ∨ ∃ c ∈ name.toList, c.isAlphanum = true := by
  unfold sanitizeFunctionName
  split_ifs with hident
  · exact iff_of_true hident (.inl hident)
  · rw [or_iff_right hident, ← sanitized_ne_nil_iff hne hlength]
    apply validIdent_of_prefix
    · exact fun c (hc : c ∈ replaceInvalid name.toList) => identChar_replaceInvalid hc
    · exact List.rdropWhile_prefix _ _

/-- **Function names.**  A valid message in function mode is left with an identifier that
both sanitizers accept exactly if its name is an identifier already, or has an ASCII letter
or digit. -/
theorem function_name_iff (decodeError : String → String) {body : String} {m : SubmissionMessage}
    (hdecode : unmarshal submissionMessage body {} = (m, true)) (hvalid : m.validate = .ok ())
    (hmode : m.effectiveType ≠ stdinProblem) :
    ∃ m', validateAndDecodeSubmission decodeError body = (m', none) ∧
      (WellNamed m'.functionName ↔
        validIdent m.functionName = true ∨ ∃ c ∈ m.functionName.toList, c.isAlphanum = true) := by
  obtain ⟨hne, hlength⟩ := functionName_of_validate hvalid hmode
  refine ⟨_, validateAndDecodeSubmission_eq decodeError hdecode hvalid, ?_⟩
  rw [wellNamed_iff]
  exact validIdent_sanitizeFunctionName hne hlength

/-- A message about a function. -/
def messageJson (name : String) : Json := .obj [("schemaVersion", .str "v1"),
  ("submissionId", .str "s1"), ("problemId", .str "p1"), ("language", .str "python"),
  ("code", .str "pass"), ("functionName", .str name)]

def messageBody (name : String) : String :=
  String.ofList (Json.print Json.goEscape (messageJson name))

def messageOf (name : String) : SubmissionMessage :=
  { schemaVersion := "v1", submissionID := "s1", problemID := "p1", language := "python"
    code := "pass", functionName := name }

theorem unmarshal_messageBody (name : String) :
    unmarshal submissionMessage (messageBody name) {} = (messageOf name, true) := by
  have hparse : Json.parse (messageBody name) = some (messageJson name) :=
    Json.parse_print Json.goEscape (messageJson name)
  unfold unmarshal
  rw [hparse]
  rfl

/-- A name that starts with a digit. -/
theorem function_name_iff_digit : ∃ m', validateAndDecodeSubmission id (messageBody "2sum") =
    (m', none) ∧ WellNamed m'.functionName := by
  obtain ⟨m', hm', hiff⟩ := function_name_iff id (unmarshal_messageBody "2sum") rfl (by decide)
  exact ⟨m', hm', hiff.mpr (.inr ⟨'s', by decide, by decide⟩)⟩

/-- **Nothing is left of a name without letters**, and the wrapper calls another name. -/
theorem function_name_fails :
    ∃ body m m', unmarshal submissionMessage body {} = (m, true) ∧ m.validate = .ok () ∧
      m.effectiveType ≠ stdinProblem ∧ validateAndDecodeSubmission id body = (m', none) ∧
      m'.functionName = "" ∧ sanitizeIdentifier m'.functionName = ("f_", false) ∧
      ¬WellNamed m'.functionName := by
  have hname : sanitizeFunctionName "--" = ("", false) := by decide
  refine ⟨messageBody "--", messageOf "--", _, unmarshal_messageBody "--", rfl, by decide,
    validateAndDecodeSubmission_eq id (unmarshal_messageBody "--") rfl, ?_⟩
  show (sanitizeFunctionName "--").1 = "" ∧ sanitizeIdentifier (sanitizeFunctionName "--").1 = _ ∧
    ¬WellNamed (sanitizeFunctionName "--").1
  rw [hname]
  exact ⟨rfl, by decide, fun h => h.nonempty rfl⟩

end Judge
