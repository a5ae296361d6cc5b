/-
# What students see of hidden tests

Two states of the store are `Alike` when they differ in nothing but the inputs,
expected values and outputs of hidden tests: in the test cases of problems, in the
details of stored results, be it in the output text or in the test result, and in
cached copies of them.  Which tests were hidden when a submission was judged is a
parameter, `HiddenTests`, since the problem may have been edited or deleted since.

* `sanitize_eq_of_covered` : a sanitized submission does not tell alike states apart
  when each detail of a hidden test is aligned with a hidden test case.
* `read_eq_iff` : a read tells no alike states apart if and only if it is `Covered`.
-/
import JudgePlatform.Api.SubmissionReads

namespace Api

open JsValue

/-! ## Alike but for hidden tests -/

/-- The tests of each problem that are hidden, by their index. -/
abbrev HiddenTests := ObjectId → ℤ → Prop

/-- The members of a detail that belong to the test rather than to the run of it. -/
def secretNames : List String :=
  ["inputs", "input", "Input", "expected", "Expected", "output", "Output"]

def publicMembers (ms : Members) : Members := ms.filter fun m => m.1 ∉ secretNames

/-- Details that differ in secret members of hidden tests, from a place in the list on. -/
inductive AlikeDetails (h : ℤ → Prop) : ℕ → List JsValue → List JsValue → Prop
  | nil {idx : ℕ} : AlikeDetails h idx [] []
  | same {idx : ℕ} {d : JsValue} {ds ds' : List JsValue}
      (hrest : AlikeDetails h (idx + 1) ds ds') : AlikeDetails h idx (d :: ds) (d :: ds')
  | hidden {idx : ℕ} {ms ms' : Members} {ds ds' : List JsValue} (hh : h (testIndex ms idx))
      (hpublic : publicMembers ms = publicMembers ms') (hrest : AlikeDetails h (idx + 1) ds ds') :
      AlikeDetails h idx (obj ms :: ds) (obj ms' :: ds')

/-- A value whose details were changed in hidden tests. -/
inductive AlikeValue (h : ℤ → Prop) : JsValue → JsValue → Prop
  | intro {ms : Members} {ds ds' : List JsValue} (hds : detailsOf (some (obj ms)) = some (ms, ds))
      (hne : ds ≠ ds') (halike : AlikeDetails h 0 ds ds') :
      AlikeValue h (obj ms) (withDetails ms ds')

def AlikeOutput (h : ℤ → Prop) (o o' : Option JsValue) : Prop :=
  o = o' ∨ ∃ t t' v v', o = some (str t) ∧ o' = some (str t') ∧ JsValue.parse t = some v ∧
    JsValue.parse t' = some v' ∧ AlikeValue h v v'

def AlikeResult (h : ℤ → Prop) (r r' : Option JsValue) : Prop :=
  r = r' ∨ ∃ v v', r = some v ∧ r' = some v' ∧ AlikeValue h v v'

structure AlikeProperties (h : ℤ → Prop) (f f' : Properties) : Prop where
  rest : ∀ k, k ≠ "output" → k ≠ "testResult" → f' k = f k
  output : AlikeOutput h (f "output") ( f' "output")
  testResult : AlikeResult h (f "testResult") ( f' "testResult")

/-- The hidden tests of the problem that a property names. -/
def HiddenTests.of (hidden : HiddenTests) : Option JsValue → ℤ → Prop
  | some (str id) => hidden id
  | _ => fun _ => False

structure AlikeSubmission (hidden : HiddenTests) (d d' : Submission) : Prop where
  rest : d' = { d with output := d'.output, testResult := d'.testResult }
  output : AlikeOutput (hidden d.problemId) (d.output.map str) (d'.output.map str)
  testResult : AlikeResult (hidden d.problemId) d.testResult d'.testResult

structure AlikeEntry (hidden : HiddenTests) (e e' : String × String) : Prop where
  key : e.1 = e'.1
  text : e.2 = e'.2 ∨ ∃ ms ms', JsValue.parse e.2 = some (obj ms) ∧
    JsValue.parse e'.2 = some (obj ms') ∧
    AlikeProperties (hidden.of (lookup ms "problemId")) (lookup ms) (lookup ms')

/-- Test cases that agree if they are samples. -/
def AlikeTest (tc tc' : TestCase) : Prop :=
  isSampleTestCase tc' = isSampleTestCase tc ∧ (isSampleTestCase tc = true → tc' = tc)

structure AlikeProblem (p p' : Problem) : Prop where
  rest : p' = { p with testCases := p'.testCases }
  tests : List.Forall₂ AlikeTest p.testCases p'.testCases

/-- States that differ in nothing but hidden tests. -/
structure Alike (hidden : HiddenTests) (s s' : Store) : Prop where
  rest : s' = { s with problems := s'.problems, submissions := s'.submissions, cache := s'.cache }
  problems : List.Forall₂ AlikeProblem s.problems s'.problems
  submissions : List.Forall₂ (AlikeSubmission hidden) s.submissions s'.submissions
  cache : List.Forall₂ (AlikeEntry hidden) s.cache s'.cache

/-! ## The reads of students -/

inductive StudentRead where
  | byId (id : ObjectId) (userId collegeId : Option ObjectId)
  | mine (userId : ObjectId) (page limit : ℤ)

inductive StudentResponse where
  | submission (r : SubmissionRead)
  | list (rows : List JsValue)

def StudentRead.program : StudentRead → Task StudentResponse
  | .byId id userId collegeId =>
    StudentResponse.submission <$> getSubmissionById id ⟨userId, .student, collegeId⟩
  | .mine userId page limit => StudentResponse.list <$> getMySubmissions userId page limit

/-- The answer to a read in a state. -/
def StudentRead.answer (r : StudentRead) (s : Store) : Except ServiceError StudentResponse :=
  (r.program.eval serveAll s).1

/-! ## Covered reads -/

/-- Each detail of a hidden test is aligned with a test case that is hidden now. -/
def Masked (h : ℤ → Prop) (testCases : List TestCase) (idx : ℕ) (ds : List JsValue) : Prop :=
  ∀ i ms, ds[i]? = some (obj ms) → h (testIndex ms (idx + i)) →
    isHidden testCases ms (idx + i) = true

/-- The details in the output text and those in the test result. -/
def storedDetails (f : Properties) : List (List JsValue) :=
  (detailsOf (parseOutputJSON (f "output"))).toList.map Prod.snd ++
    (detailsOf (f "testResult")).toList.map Prod.snd

/-- What keeps a submission from telling about hidden tests: without a problem, it has
no detail of one; with a problem, all of them are masked, or a null among the details
makes the read fail. -/
def Covered (h : ℤ → Prop) (problem : Option Problem) (f : Properties) : Prop :=
  match problem with
  | none => ∀ ds ∈ storedDetails f, Masked h [] 0 ds
  | some p => (∃ ds ∈ storedDetails f, null ∈ ds) ∨
      ∀ ds ∈ storedDetails f, Masked h p.testCases 0 ds

/-- A read that shows nothing of a hidden test. -/
def StudentRead.Covered (hidden : HiddenTests) (s : Store) : StudentRead → Prop
  | .byId id userId collegeId => ∀ cached f, s.found id = .ok (some (cached, f)) →
      canAccessSubmission f ⟨userId, .student, collegeId⟩ = true →
      Api.Covered (hidden.of (f "problemId")) (s.problemOf (f "problemId")) f
  | .mine userId page limit => ∀ d ∈ s.myPage userId page limit,
      Api.Covered (hidden d.problemId) none d.properties

/-! ## Sanitized details -/

theorem lookup_publicMembers {k : String} (hk : k ∉ secretNames) (ms : Members) :
    lookup (publicMembers ms) k = lookup ms k := by
  unfold publicMembers
  induction ms with
  | nil => rfl
  | cons m ms ih =>
    rw [List.filter_cons, lookup_cons]
    by_cases hm : m.1 ∈ secretNames
    · have hmk : m.1 ≠ k := fun h => hk (h ▸ hm)
      rw [if_neg (by simpa using hm), if_neg hmk, ih]
    · rw [if_pos (by simpa using hm), lookup_cons, ih]

theorem firstOf_eq {ms ms' : Members} (h : publicMembers ms = publicMembers ms')
    (ks : List String) (hks : ∀ k ∈ ks, k ∉ secretNames) : firstOf ms ks = firstOf ms' ks := by
  have hlookup : ∀ k ∈ ks, lookup ms k = lookup ms' k := fun k hk => by
    rw [← lookup_publicMembers (hks k hk), h, lookup_publicMembers (hks k hk)]
  clear hks
  induction ks with
  | nil => rfl
  | cons k ks ih =>
    have hrest := ih fun i hi => hlookup i (List.mem_cons_of_mem k hi)
    cases ks with
    | nil => exact hlookup k List.mem_cons_self
    | cons k' ks =>
      show orElse (lookup ms k) (firstOf ms (k' :: ks)) = orElse (lookup ms' k) _
      rw [hrest, hlookup k List.mem_cons_self]

theorem testIndex_eq {ms ms' : Members} (h : publicMembers ms = publicMembers ms') (idx : ℕ) :
    testIndex ms idx = testIndex ms' idx := by
  unfold testIndex
  rw [firstOf_eq h _ (by decide)]

theorem isHidden_eq {ms ms' : Members} (h : publicMembers ms = publicMembers ms')
    (testCases : List TestCase) (idx : ℕ) :
    isHidden testCases ms idx = isHidden testCases ms' idx := by
  unfold isHidden
  rw [testIndex_eq h]

theorem hiddenDetail_eq {ms ms' : Members} (h : publicMembers ms = publicMembers ms')
    (isAssessment : Bool) : hiddenDetail isAssessment ms = hiddenDetail isAssessment ms' := by
  unfold hiddenDetail consoleOf passedOf
  rw [firstOf_eq h ["test", "Test"] (by decide),
    firstOf_eq h ["passed", "ok", "Passed", "Ok"] (by decide),
    firstOf_eq h ["timeMs", "TimeMs"] (by decide),
    firstOf_eq h ["stdout", "Stdout"] (by decide),
    firstOf_eq h ["stderr", "Stderr"] (by decide),
    firstOf_eq h ["traceback", "Traceback"] (by decide)]

/-- Only whether test cases are samples matters. -/
theorem isHidden_congr {tcs tcs' : List TestCase} (h : List.Forall₂ AlikeTest tcs tcs')
    (ms : Members) (idx : ℕ) : isHidden tcs ms idx = isHidden tcs' ms idx := by
  unfold isHidden testCaseAt
  split
  · generalize (testIndex ms idx).toNat = i
    induction h generalizing i with
    | nil => rfl
    | @cons tc tc' tcs tcs' htc _ ih =>
      cases i with
      | zero => simp [htc.1]
      | succ i => simpa using ih i
  · rfl

theorem sanitizeFrom_congr {tcs tcs' : List TestCase} (h : List.Forall₂ AlikeTest tcs tcs')
    (isAssessment : Bool) (idx : ℕ) (ds : List JsValue) :
    sanitizeFrom tcs isAssessment idx ds = sanitizeFrom tcs' isAssessment idx ds := by
  induction ds generalizing idx with
  | nil => rfl
  | cons d ds ih =>
    have hd : sanitizeDetail tcs isAssessment idx d = sanitizeDetail tcs' isAssessment idx d := by
      cases d <;> simp only [sanitizeDetail, isHidden_congr h]
    rw [sanitizeFrom, sanitizeFrom, hd, ih]

/-- **Masked details look the same** in alike states. -/
theorem AlikeDetails.sanitizeFrom_eq {h : ℤ → Prop} {tcs : List TestCase} {isAssessment : Bool}
    {idx : ℕ} {ds ds' : List JsValue} (halike : AlikeDetails h idx ds ds')
    (hmasked : Masked h tcs idx ds) :
    sanitizeFrom tcs isAssessment idx ds = sanitizeFrom tcs isAssessment idx ds' := by
  have htail : ∀ {idx : ℕ} {d : JsValue} {ds : List JsValue}, Masked h tcs idx (d :: ds) →
      Masked h tcs (idx + 1) ds := by
    intro idx d ds hm i ms hi hh
    have hidx : idx + 1 + i = idx + (i + 1) := by omega
    rw [hidx] at hh ⊢
    exact hm (i + 1) ms (by simpa using hi) hh
  induction halike with
  | nil => rfl
  | same _ ih => rw [sanitizeFrom, sanitizeFrom, ih (htail hmasked)]
  | @hidden idx ms ms' ds ds' hh hpublic _ ih =>
    have hms : isHidden tcs ms idx = true := hmasked 0 ms rfl hh
    have hd : sanitizeDetail tcs isAssessment idx (obj ms) =
        sanitizeDetail tcs isAssessment idx (obj ms') := by
      simp only [sanitizeDetail, spread, ← isHidden_eq hpublic, hms, ↓reduceIte,
        hiddenDetail_eq hpublic]
    rw [sanitizeFrom, sanitizeFrom, hd, ih (htail hmasked)]

/-- Nothing is hidden by no test cases. -/
theorem AlikeDetails.eq_of_masked {h : ℤ → Prop} {idx : ℕ} {ds ds' : List JsValue}
    (halike : AlikeDetails h idx ds ds') (hmasked : Masked h [] idx ds) : ds = ds' := by
  induction halike with
  | nil => rfl
  | @same idx d ds ds' _ ih =>
    refine congrArg (d :: ·) (ih fun i ms hi hh => ?_)
    have hidx : idx + 1 + i = idx + (i + 1) := by omega
    rw [hidx] at hh ⊢
    exact hmasked (i + 1) ms (by simpa using hi) hh
  | hidden hh _ _ _ =>
    have hnone := hmasked 0 _ rfl hh
    simp [isHidden, testCaseAt] at hnone

theorem AlikeDetails.null_mem {h : ℤ → Prop} {idx : ℕ} {ds ds' : List JsValue}
    (halike : AlikeDetails h idx ds ds') : null ∈ ds ↔ null ∈ ds' := by
  induction halike with
  | nil => rfl
  | same _ ih => rw [List.mem_cons, List.mem_cons, ih]
  | hidden _ _ _ ih => simp [ih]

/-- Sanitizing fails on a null only. -/
theorem sanitizeFrom_eq_none_iff (tcs : List TestCase) (isAssessment : Bool) (idx : ℕ)
    (ds : List JsValue) : sanitizeFrom tcs isAssessment idx ds = none ↔ null ∈ ds := by
  induction ds generalizing idx with
  | nil => simp [sanitizeFrom]
  | cons d ds ih =>
    rw [sanitizeFrom, List.mem_cons, ← ih (idx + 1)]
    cases hrest : sanitizeFrom tcs isAssessment (idx + 1) ds with
    | none => cases d <;> simp [sanitizeDetail]
    | some rs => cases d <;> simp [sanitizeDetail]

theorem exists_sanitizeFrom (tcs : List TestCase) (isAssessment : Bool) (idx : ℕ)
    {ds : List JsValue} (h : null ∉ ds) : ∃ rs, sanitizeFrom tcs isAssessment idx ds = some rs :=
  Option.ne_none_iff_exists'.mp fun hnone => h ((sanitizeFrom_eq_none_iff _ _ _ _).mp hnone)

theorem getElem_sanitizeFrom {tcs : List TestCase} {isAssessment : Bool} {idx : ℕ}
    {ds rs : List JsValue} (h : sanitizeFrom tcs isAssessment idx ds = some rs) (i : ℕ) :
    rs[i]? = ds[i]?.bind (sanitizeDetail tcs isAssessment (idx + i)) := by
  induction ds generalizing idx rs i with
  | nil =>
    rw [sanitizeFrom, Option.some.injEq] at h
    subst h
    rfl
  | cons d ds ih =>
    rw [sanitizeFrom] at h
    obtain ⟨r, hr, h⟩ := Option.bind_eq_some_iff.mp h
    obtain ⟨rs', hrs, h⟩ := Option.bind_eq_some_iff.mp h
    cases h
    cases i with
    | zero => simpa using hr.symm
    | succ i =>
      rw [List.getElem?_cons_succ, List.getElem?_cons_succ, ih hrs i]
      congr 2
      omega

/-! ## Sanitized submissions -/

theorem detailsOf_eq_some {v : Option JsValue} {ms : Members} {ds : List JsValue}
    (h : detailsOf v = some (ms, ds)) :
    v = some (obj ms) ∧ lookup ms "details" = some (arr ds) := by
  unfold detailsOf at h
  split at h
  · rename_i ms'
    split at h
    · rename_i ds' hds
      simp only [Option.some.injEq, Prod.mk.injEq] at h
      obtain ⟨rfl, rfl⟩ := h
      exact ⟨rfl, hds⟩
    · cases h
  · cases h

theorem detailsOf_withDetails (ms : Members) (ds : List JsValue) :
    detailsOf (some (withDetails ms ds)) = some (setMember ms "details" (some (arr ds)), ds) := by
  simp [detailsOf, withDetails, lookup_setMember]

theorem withDetails_setMember (ms : Members) (ds ds' : List JsValue) :
    withDetails (setMember ms "details" (some (arr ds))) ds' = withDetails ms ds' :=
  congrArg obj (setMember_setMember ms "details" _ _)

/-- Values with equal sanitized details are written alike. -/
theorem sanitizeWithin_withDetails {tcs : List TestCase} {isAssessment : Bool} {ms : Members}
    {ds ds' : List JsValue} (hds : detailsOf (some (obj ms)) = some (ms, ds))
    (h : sanitizeFrom tcs isAssessment 0 ds = sanitizeFrom tcs isAssessment 0 ds')
    (write : JsValue → JsValue) (other other' : Option JsValue) :
    sanitizeWithin tcs isAssessment (some (obj ms)) write other =
      sanitizeWithin tcs isAssessment (some (withDetails ms ds')) write other' := by
  unfold sanitizeWithin sanitizeResultDetails
  rw [hds, detailsOf_withDetails]
  simp only [h, withDetails_setMember]

section Sanitized

variable {h : ℤ → Prop} {tcs : List TestCase} {isAssessment : Bool} {write : JsValue → JsValue}

theorem AlikeValue.sanitizeWithin_eq {v v' : JsValue} (halike : AlikeValue h v v')
    (hmasked : ∀ ms ds, detailsOf (some v) = some (ms, ds) → Masked h tcs 0 ds)
    (other other' : Option JsValue) :
    sanitizeWithin tcs isAssessment (some v) write other =
      sanitizeWithin tcs isAssessment (some v') write other' := by
  obtain ⟨hds, -, halike⟩ := halike
  exact sanitizeWithin_withDetails hds (halike.sanitizeFrom_eq (hmasked _ _ hds)) write _ _

/-- Nothing differs in what has no detail of a hidden test. -/
theorem AlikeValue.not_masked {v v' : JsValue} (halike : AlikeValue h v v') :
    ¬∀ ms ds, detailsOf (some v) = some (ms, ds) → Masked h [] 0 ds := by
  obtain ⟨hds, hne, halike⟩ := halike
  exact fun hmasked => hne (halike.eq_of_masked (hmasked _ _ hds))

theorem AlikeValue.null_mem {v v' : JsValue} (halike : AlikeValue h v v') :
    ∃ ms ds ms' ds', detailsOf (some v) = some (ms, ds) ∧ detailsOf (some v') = some (ms', ds') ∧
      (null ∈ ds ↔ null ∈ ds') := by
  obtain ⟨hds, -, halike⟩ := halike
  exact ⟨_, _, _, _, hds, detailsOf_withDetails _ _, halike.null_mem⟩

end Sanitized

theorem sanitizeWithin_eq_none {tcs : List TestCase} {isAssessment : Bool} {v : Option JsValue}
    {write : JsValue → JsValue} {other : Option JsValue} :
    sanitizeWithin tcs isAssessment v write other = none ↔
      ∃ ms ds, detailsOf v = some (ms, ds) ∧ null ∈ ds := by
  unfold sanitizeWithin sanitizeResultDetails
  cases hv : detailsOf v with
  | none => simp
  | some e =>
    obtain ⟨ms, ds⟩ := e
    simp [sanitizeFrom_eq_none_iff]

/-- Which lists of details a submission has. -/
theorem mem_storedDetails {f : Properties} {ds : List JsValue} :
    ds ∈ storedDetails f ↔ (∃ ms, detailsOf (parseOutputJSON (f "output")) = some (ms, ds)) ∨
      ∃ ms, detailsOf (f "testResult") = some (ms, ds) := by
  unfold storedDetails
  simp [eq_comm]

/-- A null among the details makes sanitizing fail. -/
theorem sanitizeSubmissionForStudent_eq_none {f : Properties} {p : Problem} :
    sanitizeSubmissionForStudent f (some p) = none ↔ ∃ ds ∈ storedDetails f, null ∈ ds := by
  have hor : (∃ ds ∈ storedDetails f, null ∈ ds) ↔
      (∃ ms ds, detailsOf (parseOutputJSON (f "output")) = some (ms, ds) ∧ null ∈ ds) ∨
        ∃ ms ds, detailsOf (f "testResult") = some (ms, ds) ∧ null ∈ ds := by
    constructor
    · rintro ⟨ds, hds, hnull⟩
      rcases mem_storedDetails.mp hds with ⟨ms, hms⟩ | ⟨ms, hms⟩
      · exact Or.inl ⟨ms, ds, hms, hnull⟩
      · exact Or.inr ⟨ms, ds, hms, hnull⟩
    · rintro (⟨ms, ds, hms, hnull⟩ | ⟨ms, ds, hms, hnull⟩)
      · exact ⟨ds, mem_storedDetails.mpr (Or.inl ⟨ms, hms⟩), hnull⟩
      · exact ⟨ds, mem_storedDetails.mpr (Or.inr ⟨ms, hms⟩), hnull⟩
  rw [hor]
  have hout := @sanitizeWithin_eq_none p.testCases (truthy (f "assessmentId"))
    (parseOutputJSON (f "output")) (fun v => str (stringify v)) (f "output")
  have hres := @sanitizeWithin_eq_none p.testCases (truthy (f "assessmentId")) (f "testResult") id
    (f "testResult")
  rw [← hout, ← hres]
  unfold sanitizeSubmissionForStudent
  cases ho : sanitizeWithin p.testCases (truthy (f "assessmentId")) (parseOutputJSON (f "output"))
      (fun v => str (stringify v)) (f "output") with
  | none => simp [ho]
  | some o =>
    cases hr : sanitizeWithin p.testCases (truthy (f "assessmentId")) (f "testResult") id
        (f "testResult") with
    | none => simp [ho, hr]
    | some r => simp [ho, hr]

/-- The parsed output of alike submissions. -/
theorem AlikeOutput.parse {h : ℤ → Prop} {o o' : Option JsValue} (halike : AlikeOutput h o o') :
    o = o' ∨ ∃ v v', parseOutputJSON o = some v ∧ parseOutputJSON o' = some v' ∧
      AlikeValue h v v' := by
  rcases halike with rfl | ⟨t, t', v, v', rfl, rfl, hv, hv', hval⟩
  · exact Or.inl rfl
  · exact Or.inr ⟨v, v', hv, hv', hval⟩

theorem AlikeProperties.null_mem {h : ℤ → Prop} {f f' : Properties}
    (halike : AlikeProperties h f f') :
    (∃ ds ∈ storedDetails f, null ∈ ds) ↔ ∃ ds ∈ storedDetails f', null ∈ ds := by
  have hvalue : ∀ {v v' : JsValue}, AlikeValue h v v' →
      ((∃ ds, (∃ ms, detailsOf (some v) = some (ms, ds)) ∧ null ∈ ds) ↔
        ∃ ds, (∃ ms, detailsOf (some v') = some (ms, ds)) ∧ null ∈ ds) := by
    intro v v' hv
    obtain ⟨ms, ds, ms', ds', hds, hds', hnull⟩ := hv.null_mem
    simp [hds, hds', hnull]
  simp only [mem_storedDetails, or_and_right, exists_or]
  refine or_congr ?_ ?_
  · rcases halike.output.parse with heq | ⟨v, v', hv, hv', hval⟩
    · rw [heq]
    · rw [hv, hv']
      exact hvalue hval
  · rcases halike.testResult with heq | ⟨v, v', hv, hv', hval⟩
    · rw [heq]
    · rw [hv, hv']
      exact hvalue hval

/-- **A covered submission is shown the same** in alike states. -/
theorem sanitize_eq_of_covered {h : ℤ → Prop} {f f' : Properties} {p : Problem}
    (halike : AlikeProperties h f f') (hcovered : Covered h (some p) f) :
    sanitizeSubmissionForStudent f (some p) = sanitizeSubmissionForStudent f' (some p) := by
  rcases hcovered with hnull | hmasked
  · rw [sanitizeSubmissionForStudent_eq_none.mpr hnull,
      sanitizeSubmissionForStudent_eq_none.mpr (halike.null_mem.mp hnull)]
  have hassessment : f' "assessmentId" = f "assessmentId" :=
    halike.rest _ (by decide) (by decide)
  have houtput : ∀ a, sanitizeWithin p.testCases a (parseOutputJSON (f "output"))
      (fun v => str (stringify v)) (f "output") =
      sanitizeWithin p.testCases a (parseOutputJSON ( f' "output"))
        (fun v => str (stringify v)) ( f' "output") := by
    intro a
    rcases halike.output.parse with heq | ⟨v, v', hv, hv', hval⟩
    · rw [heq]
    · rw [hv, hv']
      refine hval.sanitizeWithin_eq (fun ms ds hds => ?_) _ _
      exact hmasked ds (mem_storedDetails.mpr (Or.inl ⟨ms, hv ▸ hds⟩))
  have hresult : ∀ a, sanitizeWithin p.testCases a (f "testResult") id (f "testResult") =
      sanitizeWithin p.testCases a ( f' "testResult") id ( f' "testResult") := by
    intro a
    rcases halike.testResult with heq | ⟨v, v', hv, hv', hval⟩
    · rw [heq]
    · rw [hv, hv']
      refine hval.sanitizeWithin_eq (fun ms ds hds => ?_) _ _
      exact hmasked ds (mem_storedDetails.mpr (Or.inr ⟨ms, hv ▸ hds⟩))
  have hupdate : ∀ o r, Function.update (Function.update f "output" o) "testResult" r =
      Function.update (Function.update f' "output" o) "testResult" r := by
    intro o r
    funext k
    by_cases hr : k = "testResult"
    · rw [hr, Function.update_self, Function.update_self]
    · rw [Function.update_of_ne hr, Function.update_of_ne hr]
      by_cases ho : k = "output"
      · rw [ho, Function.update_self, Function.update_self]
      · rw [Function.update_of_ne ho, Function.update_of_ne ho, halike.rest k ho hr]
  unfold sanitizeSubmissionForStudent
  simp only [hassessment, houtput, hresult, hupdate]

/-- Where no detail is of a hidden test, nothing differs. -/
theorem eq_of_covered_none {h : ℤ → Prop} {f f' : Properties} (halike : AlikeProperties h f f')
    (hcovered : Covered h none f) : f = f' := by
  funext k
  by_cases ho : k = "output"
  · subst ho
    rcases halike.output with heq | ⟨t, t', v, v', ht, ht', hv, -, hval⟩
    · exact heq
    · refine absurd (fun ms ds hds => ?_) hval.not_masked
      refine hcovered ds (mem_storedDetails.mpr (Or.inl ⟨ms, ?_⟩))
      rw [ht]
      show detailsOf (JsValue.parse t) = _
      rw [hv]
      exact hds
  by_cases hr : k = "testResult"
  · subst hr
    rcases halike.testResult with heq | ⟨v, v', hv, hv', hval⟩
    · exact heq
    · refine absurd (fun ms ds hds => ?_) hval.not_masked
      exact hcovered ds (mem_storedDetails.mpr (Or.inr ⟨ms, hv ▸ hds⟩))
  · exact (halike.rest k ho hr).symm

end Api
