/-
# The sources of a submission

`getSubmissionById` serves a judged submission from the database, from the Redis entry that
the API made of the document, or from the one that the judge made of its own record.  The
record of the judge has neither the college nor the assessment of the submission; the access
rule looks at the one, the sanitizer at the other.

* `ReadsAs` : the properties of a submission as they are read from any source.
* `studentView` : what a student sees of hidden tests.
* `cache_transparent_iff` : when the sources are as good as each other.
-/
import JudgePlatform.Api.HiddenReads
import JudgePlatform.Api.Rejudges
import JudgePlatform.Api.ResultReads

namespace Api

open JsValue

/-! ## Submissions from each source -/

variable {bson : GoValue → JsValue}

/-- The properties of a judged submission as they are read, from whatever source: those that
decide about access and about sanitizing, and what was stored of the execution. -/
structure ReadsAs (o : Judge.Outcome) (problemId userId : ObjectId)
    (collegeId assessmentId : Option ObjectId) (f : Properties) : Prop where
  problemId : f "problemId" = some (str problemId)
  userId : f "userId" = some (str userId)
  collegeId : f "collegeId" = collegeId.map str
  assessmentId : f "assessmentId" = assessmentId.map str
  output : (f "output").getD (str "") = str o.output
  testResult : ReadResult (storedDetailsOf o) (f "testResult")

/-- The submission once the judge has stored what came of it. -/
def Verdict.stored (bson : GoValue → JsValue) (v : Verdict) (d : Submission) : Submission :=
  d.withResult v.outcome.status v.outcome.output
    (some (Judge.resultDocument bson v.outcome.testResult))

theorem readsAs_stored (v : Verdict) (d : Submission) :
    ReadsAs v.outcome d.problemId d.userId d.collegeId d.assessmentId
      (v.stored bson d).properties where
  problemId := properties_problemId _
  userId := properties_userId _
  collegeId := properties_collegeId _
  assessmentId := properties_assessmentId _
  output := by
    rw [properties_output]
    rfl
  testResult := by
    rw [properties_testResult]
    exact readResult_stored v.outcome

theorem keys_optional (k : String) (v : Option JsValue) :
    ((optional k v).map Prod.fst).Sublist [k] := by
  cases v with
  | none => exact List.nil_sublist _
  | some v => exact List.Sublist.refl _

theorem nodup_toObject (d : Submission) : (d.toObject.map Prod.fst).Nodup := by
  have hsub : (d.toObject.map Prod.fst).Sublist (["_id", "problemId", "userId"] ++
      ["assessmentId"] ++ ["attemptId"] ++ ["collegeId"] ++
      ["score", "code", "language", "status"] ++ ["output"] ++ ["testResult"] ++
      ["externalStudentId"] ++ ["externalAssessmentId"]) := by
    unfold Submission.toObject
    simp only [List.map_append]
    repeat' apply List.Sublist.append
    all_goals first
      | exact keys_optional _ _
      | exact List.Sublist.refl _
  exact hsub.nodup (by decide)

/-- The copy of the API. -/
theorem readsAs_copied {v : Verdict} (h : ∀ t ∈ storedDetailsOf v.outcome, |t.test| ≤ 2 ^ 63)
    (d : Submission) :
    ReadsAs v.outcome d.problemId d.userId d.collegeId d.assessmentId
      (lookup (rereadMembers (v.stored bson d).toObject)) := by
  have hread : ∀ k, lookup (rereadMembers (v.stored bson d).toObject) k =
      ((v.stored bson d).properties k).map reread :=
    lookup_rereadMembers (nodup_toObject _)
  have hid : ∀ x : Option ObjectId, (x.map str).map reread = x.map str := by
    rintro (_ | x)
    · rfl
    · rfl
  constructor
  · rw [hread, properties_problemId]
    rfl
  · rw [hread, properties_userId]
    rfl
  · rw [hread, properties_collegeId, hid]
    rfl
  · rw [hread, properties_assessmentId, hid]
    rfl
  · rw [hread, properties_output, hid]
    rfl
  · rw [hread, properties_testResult]
    exact readResult_copied h

theorem lookup_unlessEmpty (i t k : String) :
    lookup (Verdict.unlessEmpty i t) k = if i = k ∧ t ≠ "" then some (Json.str t) else none := by
  unfold Verdict.unlessEmpty
  by_cases ht : t = ""
  · simp [ht]
  · simp [ht, lookup_cons]

theorem keys_unlessEmpty (i t : String) :
    ((Verdict.unlessEmpty i t).map Prod.fst).Sublist [i] := by
  unfold Verdict.unlessEmpty
  split_ifs
  · exact List.nil_sublist _
  · exact List.Sublist.refl _

theorem Verdict.nodup_members (v : Verdict) (owner : ObjectId) (tr : Option Json) :
    ((v.members owner tr).map Prod.fst).Nodup := by
  have hresult : (((tr.map fun j => ("testResult", j)).toList).map Prod.fst).Sublist
      ["testResult"] := by
    cases tr with
    | none => exact List.nil_sublist _
    | some j => exact List.Sublist.refl _
  have hsub : ((v.members owner tr).map Prod.fst).Sublist
      (["_id", "problemId", "userId", "language"] ++ (["code"] ++ (["status"] ++
        (["output"] ++ ["testResult"])))) := by
    unfold Verdict.members
    simp only [List.map_cons, List.map_append]
    show (["_id", "problemId", "userId", "language"] ++ (_ ++ (["status"] ++ _))).Sublist _
    refine List.Sublist.append (List.Sublist.refl _) ?_
    refine List.Sublist.append (keys_unlessEmpty _ _) ?_
    refine List.Sublist.append (List.Sublist.refl _) ?_
    exact List.Sublist.append (keys_unlessEmpty _ _) hresult
  exact hsub.nodup (by decide)

/-- The record of the judge has no college and no assessment. -/
theorem readsAs_judged {v : Verdict} (h : ∀ t ∈ storedDetailsOf v.outcome, |t.test| ≤ 2 ^ 63)
    (hid : isObjectId v.problemId = true) {owner : ObjectId} {j : Json}
    (hj : v.entry owner = .ok j) :
    ∃ ms, ofJson j = obj ms ∧ ReadsAs v.outcome v.problemId owner none none (lookup ms) := by
  -- the record, whatever became of the result
  have hrecord : ∀ tr : Option Json, j = .obj (v.members owner tr) →
      ReadResult (storedDetailsOf v.outcome) (tr.map ofJson) →
      ∃ ms, ofJson j = obj ms ∧ ReadsAs v.outcome v.problemId owner none none (lookup ms) := by
    rintro tr rfl hresult
    have hread := lookup_ofMembers_nil (v.nodup_members owner tr)
    have htestResult : lookup (v.members owner tr) "testResult" = tr := by
      cases tr <;>
        simp [Verdict.members, lookup_cons, lookup_append, lookup_unlessEmpty]
    refine ⟨ofMembers (v.members owner tr) [], rfl, ?_, ?_, ?_, ?_, ?_, ?_⟩
    · rw [hread]
      simp [Verdict.members, lookup_cons, hid, ofJson]
    · rw [hread]
      simp [Verdict.members, lookup_cons, ofJson]
    · rw [hread]
      cases tr <;>
        simp [Verdict.members, lookup_cons, lookup_append, lookup_unlessEmpty]
    · rw [hread]
      cases tr <;>
        simp [Verdict.members, lookup_cons, lookup_append, lookup_unlessEmpty]
    · rw [hread]
      by_cases hout : v.outcome.output = ""
      · cases tr <;>
          simp [Verdict.members, lookup_cons, lookup_append, lookup_unlessEmpty, hout]
      · simp [Verdict.members, lookup_cons, lookup_append, lookup_unlessEmpty, hout, ofJson]
    · rw [hread, htestResult]
      exact hresult
  cases hr : v.outcome.testResult with
  | none =>
    unfold Verdict.entry at hj
    rw [hr] at hj
    refine hrecord none (Except.ok.inj hj).symm ?_
    unfold storedDetailsOf
    rw [hr]
    exact List.Forall₂.nil
  | some sr =>
    unfold Verdict.entry at hj
    rw [hr] at hj
    cases hsr : sr.toJson with
    | error e =>
      simp only [hsr] at hj
      cases hj
    | ok jr =>
      simp only [hsr] at hj
      refine hrecord (some jr) (Except.ok.inj hj).symm ?_
      unfold storedDetailsOf at h ⊢
      rw [hr] at h ⊢
      exact readResult_judged h hsr

/-! ## What a requester is told -/

/-- What a student sees of hidden tests: the output text, and what each detail of the result
tells of a test that is hidden. -/
structure StudentView where
  output : JsValue
  details : List (Option (List (Option JsValue)))

def studentView (testCases : List TestCase) (f : Properties) : StudentView where
  output := (f "output").getD (str "")
  details := (resultDetails (f "testResult")).mapIdx (hiddenContent testCases)

/-- An answer, up to what no student sees. -/
inductive Told where
  | notFound
  | forbidden
  | allowed (view : Option StudentView)

def told (auth : Requester) (testCases : List TestCase) : SubmissionRead → Told
  | .notFound => .notFound
  | .forbidden => .forbidden
  | .found _ f => .allowed (if auth.role = .student then some (studentView testCases f) else none)

/-- The tests of a problem; a problem that was deleted has none. -/
def testsOf (problem : Option Problem) : List TestCase := problem.elim [] Problem.testCases

/-- What a student sees of an execution. -/
def viewOf (o : Judge.Outcome) (problem : Option Problem) (isAssessment : Bool) :
    Option StudentView :=
  match problem with
  | none => some ⟨str o.output, leftContents [] isAssessment (storedDetailsOf o)⟩
  | some p =>
    (sanitizeWithin p.testCases isAssessment (JsValue.parse o.output)
      (fun v => str (stringify v)) (some (str o.output))).map fun output =>
        ⟨output.getD (str ""), leftContents p.testCases isAssessment (storedDetailsOf o)⟩

/-- The properties that decide about access. -/
def accessOf (userId : ObjectId) (collegeId : Option ObjectId) : Properties :=
  lookup (("userId", str userId) :: optional "collegeId" (collegeId.map str))

theorem accessOf_userId (userId : ObjectId) (collegeId : Option ObjectId) :
    accessOf userId collegeId "userId" = some (str userId) := rfl

theorem accessOf_collegeId (userId : ObjectId) (collegeId : Option ObjectId) :
    accessOf userId collegeId "collegeId" = collegeId.map str := by
  unfold accessOf
  rw [lookup_cons, if_neg (by simp), lookup_optional, if_pos rfl]

/-- The answer that shows a student a submission; there is none when sanitizing it fails. -/
def ofView : Option StudentView → Except ServiceError Told
  | some view => .ok (.allowed (some view))
  | none => .error .typeError

/-- The answer to a requester, from what a submission reads as. -/
def toldBy (auth : Requester) (o : Judge.Outcome) (problem : Option Problem) (userId : ObjectId)
    (collegeId assessmentId : Option ObjectId) : Except ServiceError Told :=
  if canAccessSubmission (accessOf userId collegeId) auth then
    if auth.role = .student then ofView (viewOf o problem (truthy (assessmentId.map str)))
    else .ok (.allowed none)
  else .ok .forbidden

section Told

variable {o : Judge.Outcome} {problemId userId : ObjectId} {collegeId assessmentId : Option ObjectId}
  {f : Properties}

theorem hiddenContent_nil (idx : ℕ) (v : JsValue) : hiddenContent [] idx v = none := by
  simp [hiddenContent, isHidden, testCaseAt]

theorem ReadsAs.parse_output (h : ReadsAs o problemId userId collegeId assessmentId f) :
    parseOutputJSON (f "output") = JsValue.parse o.output := by
  have houtput := h.output
  cases hf : f "output" with
  | none =>
    rw [hf] at houtput
    have hempty : JsValue.parse "" = none := by decide +kernel
    rw [← JsValue.str.inj houtput, hempty]
    rfl
  | some v =>
    rw [hf] at houtput
    obtain rfl : v = str o.output := houtput
    rfl

/-- **What a student sees of a submission** follows from what it reads as. -/
theorem ReadsAs.view (h : ReadsAs o problemId userId collegeId assessmentId f)
    (problem : Option Problem) :
    (sanitizeSubmissionForStudent f problem).map (studentView (testsOf problem)) =
      viewOf o problem (truthy (assessmentId.map str)) := by
  cases problem with
  | none =>
    show some (studentView [] f) = some _
    unfold studentView leftContents
    rw [h.output, Option.some.injEq, StudentView.mk.injEq]
    refine ⟨rfl, List.ext_getElem ?_ fun i hi hi' => ?_⟩
    · rw [List.length_mapIdx, List.length_mapIdx]
      exact h.testResult.length_eq.symm
    · rw [List.getElem_mapIdx, List.getElem_mapIdx, hiddenContent_nil]
      simp [isHidden, testCaseAt]
  | some p =>
    obtain ⟨v', hv', hcontent⟩ :=
      h.testResult.sanitizeWithin p.testCases (truthy (assessmentId.map str))
    let isAssessment := truthy (assessmentId.map str)
    let contents := leftContents p.testCases isAssessment (storedDetailsOf o)
    have hview : ∀ output : Option JsValue,
        studentView p.testCases
          (Function.update (Function.update f "output" output) "testResult" v') =
        ⟨output.getD (str ""), contents⟩ := by
      intro output
      unfold studentView
      rw [Function.update_self, Function.update_of_ne (by decide), Function.update_self, hcontent]
    -- an output that is left out counts as an empty one
    have hother : (sanitizeWithin p.testCases isAssessment (JsValue.parse o.output)
        (fun v => str (stringify v)) (f "output")).map
          (fun output => StudentView.mk (output.getD (str "")) contents) =
        (sanitizeWithin p.testCases isAssessment (JsValue.parse o.output)
          (fun v => str (stringify v)) (some (str o.output))).map
          (fun output => StudentView.mk (output.getD (str "")) contents) := by
      unfold sanitizeWithin
      split
      · rfl
      · exact congrArg (fun t => some (StudentView.mk t contents)) h.output
    unfold sanitizeSubmissionForStudent viewOf
    simp only [h.assessmentId, h.parse_output, hv']
    refine Eq.trans ?_ hother
    cases sanitizeWithin p.testCases isAssessment (JsValue.parse o.output)
        (fun v => str (stringify v)) (f "output") with
    | none => rfl
    | some output => exact congrArg some (hview output)

/-- **What a requester is told of a submission** follows from what it reads as. -/
theorem ReadsAs.told (h : ReadsAs o problemId userId collegeId assessmentId f) {s : Store}
    {id : ObjectId} {cached : Bool} (hfound : s.found id = .ok (some (cached, f)))
    (auth : Requester) :
    (s.read id auth).map (told auth (testsOf (s.problem problemId))) =
      toldBy auth o (s.problem problemId) userId collegeId assessmentId := by
  have haccess : canAccessSubmission f auth =
      canAccessSubmission (accessOf userId collegeId) auth := by
    refine canAccessSubmission_congr ?_ ?_ auth
    · rw [h.userId, accessOf_userId]
    · rw [h.collegeId, accessOf_collegeId]
  have hproblem : s.problemOf (f "problemId") = s.problem problemId := by
    rw [h.problemId]
    rfl
  have hview := h.view (s.problem problemId)
  unfold Store.read toldBy
  simp only [hfound, haccess, hproblem]
  split_ifs with hmay hstudent
  · unfold shown
    have hprivileged : isPrivilegedRole auth.role = false := by
      rw [hstudent]
      rfl
    rw [hprivileged, if_neg (by decide), ← hview]
    cases sanitizeSubmissionForStudent f (s.problem problemId) with
    | none => rfl
    | some g =>
      show Except.ok (Told.allowed (if auth.role = .student then _ else none)) = _
      rw [if_pos hstudent]
      rfl
  · unfold shown
    have hprivileged : isPrivilegedRole auth.role = true := by
      cases hrole : auth.role with
      | student => exact absurd hrole hstudent
      | _ => rfl
    rw [hprivileged, if_pos rfl]
    show Except.ok (Told.allowed (if auth.role = .student then _ else none)) = _
    rw [if_neg hstudent]
  · rfl

theorem ofView_injective {v v' : Option StudentView} (h : ofView v = ofView v') : v = v' := by
  cases v with
  | none =>
    cases v' with
    | none => rfl
    | some view' => cases h
  | some view =>
    cases v' with
    | none => cases h
    | some view' => exact (Told.allowed.inj (Except.ok.inj h))

theorem ofView_ne_forbidden (v : Option StudentView) : ofView v ≠ .ok .forbidden := by
  intro h
  cases v with
  | none => cases h
  | some view => cases h

/-- A student is shown their own submissions. -/
theorem toldBy_student {auth : Requester} {w : ObjectId} (hrole : auth.role = .student)
    (hw : auth.userId = some w) (hblank : w ≠ "") (problem : Option Problem) :
    toldBy auth o problem userId collegeId assessmentId =
      if userId = w then ofView (viewOf o problem (truthy (assessmentId.map str)))
      else .ok .forbidden := by
  have haccess : canAccessSubmission (accessOf userId collegeId) auth = decide (userId = w) := by
    unfold canAccessSubmission
    rw [hw, if_neg (by simpa [orString] using hblank), hrole]
    rfl
  unfold toldBy
  rw [haccess, if_pos hrole]
  simp only [decide_eq_true_eq]

/-- Staff see the submissions of their college, and those without one. -/
theorem toldBy_staff {auth : Requester} {w : ObjectId} (hrole : auth.role ≠ .student)
    (hadmin : auth.role ≠ .superadmin) (hw : auth.userId = some w) (hblank : w ≠ "")
    (problem : Option Problem) :
    toldBy auth o problem userId collegeId assessmentId =
      if truthy (collegeId.map str) = true →
          idText (collegeId.map str) = idText (auth.collegeId.map str) then .ok (.allowed none)
      else .ok .forbidden := by
  have haccess : canAccessSubmission (accessOf userId collegeId) auth =
      if truthy (collegeId.map str) then
        decide (idText (collegeId.map str) = idText (auth.collegeId.map str))
      else true := by
    unfold canAccessSubmission
    rw [hw, if_neg (by simpa [orString] using hblank), accessOf_collegeId]
    cases hr : auth.role with
    | student => exact absurd hr hrole
    | superadmin => exact absurd hr hadmin
    | _ => rfl
  unfold toldBy
  rw [haccess, if_neg hrole]
  cases truthy (collegeId.map str) with
  | true => simp
  | false => simp

end Told

/-! ## The view of an execution -/

/-- **A student sees the same both ways** exactly when the submission is quiet. -/
theorem ReadsAs.viewOf_eq_iff {o : Judge.Outcome} {problemId userId : ObjectId}
    {collegeId assessmentId : Option ObjectId} {f : Properties}
    (h : ReadsAs o problemId userId collegeId assessmentId f) (problem : Option Problem) :
    viewOf o problem true = viewOf o problem false ↔ QuietFor problem f := by
  cases problem with
  | none =>
    refine iff_of_true ?_ trivial
    have hleft : leftContents [] true (storedDetailsOf o) =
        leftContents [] false (storedDetailsOf o) := by
      rw [h.testResult.leftContents_eq_iff]
      intro i v _ hhidden
      simp [isHidden, testCaseAt] at hhidden
    unfold viewOf
    rw [hleft]
  | some p =>
    have htext := @sanitizeWithin_text_eq_iff p.testCases (JsValue.parse o.output)
      (some (str o.output))
    rw [quietFor_some, h.parse_output, or_iff_left h.testResult.null_not_mem,
      ← h.testResult.leftContents_eq_iff]
    unfold viewOf
    by_cases hnull : null ∈ resultDetails (JsValue.parse o.output)
    · simp only [sanitizeWithin_of_null hnull, Option.map_none, true_iff]
      exact Or.inl hnull
    · obtain ⟨t, ht⟩ := exists_sanitizeWithin p.testCases true (fun v => str (stringify v)) hnull
        (str o.output)
      obtain ⟨t', ht'⟩ := exists_sanitizeWithin p.testCases false (fun v => str (stringify v)) hnull
        (str o.output)
      rw [ht, ht'] at htext
      rw [or_iff_right hnull] at htext ⊢
      rw [← htext]
      simp only [ht, ht', Option.map_some, Option.some.injEq, StudentView.mk.injEq,
        Option.getD_some]

/-! ## The sources of a judged submission -/

/-- A submission that the judge has stored, and the record that it has made of it for Redis,
with the user that it has found for the submission. -/
structure JudgedSubmission (bson : GoValue → JsValue) (s : Store) where
  doc : Submission
  verdict : Verdict
  owner : ObjectId
  entry : Json
  named : verdict.submissionId = doc.id ∧ verdict.problemId = doc.problemId
  isObjectId : isObjectId doc.problemId = true
  stored : s.submission doc.id = some (verdict.stored bson doc)
  uncached : s.cached (cacheKey doc.id) = none
  encoded : verdict.entry owner = .ok entry
  /-- the number of a test fits a Go `int` -/
  numbers : ∀ t ∈ storedDetailsOf verdict.outcome, |t.test| ≤ 2 ^ 63

inductive Source where
  | database
  | api
  | judge

section Transparent

variable {s : Store}

/-- The state in which a submission is served from a source. -/
def JudgedSubmission.state (x : JudgedSubmission bson s) : Source → Store
  | .database => s
  | .api => s.setCache (cacheKey x.doc.id) (x.verdict.stored bson x.doc).entryText
  | .judge => s.setCache (cacheKey x.doc.id) (goText x.entry)

/-- What `getSubmissionById` tells a requester from a source. -/
def JudgedSubmission.answer (x : JudgedSubmission bson s) (auth : Requester) (source : Source) :
    Except ServiceError Told :=
  ((getSubmissionById x.doc.id auth).eval serveAll (x.state source)).1.map
    (told auth (testsOf (s.problem x.doc.problemId)))

/-- **Cache transparency**: each source gives the same decision and shows a student the same of
hidden tests. -/
def JudgedSubmission.Transparent (x : JudgedSubmission bson s) (auth : Requester) : Prop :=
  ∀ source, x.answer auth source = x.answer auth .database

theorem found_setCache {id : ObjectId} {text : String} {ms : Members}
    (h : JsValue.parse text = some (obj ms)) :
    (s.setCache (cacheKey id) text).found id = .ok (some (true, lookup ms)) := by
  have hne : text ≠ "" := by
    rintro rfl
    have hempty : JsValue.parse "" = none := by decide +kernel
    rw [hempty] at h
    cases h
  unfold Store.found
  rw [cached_setCache, if_pos rfl]
  simp only [parsedEntry, if_neg hne, h]
  rfl

theorem parse_goText (j : Json) : JsValue.parse (goText j) = some (ofJson j) := by
  unfold JsValue.parse goText
  rw [Json.parse_print]
  rfl

theorem JudgedSubmission.answer_database (x : JudgedSubmission bson s) (auth : Requester) :
    x.answer auth .database = toldBy auth x.verdict.outcome (s.problem x.doc.problemId)
      x.doc.userId x.doc.collegeId x.doc.assessmentId := by
  have hfound : s.found x.doc.id =
      .ok (some (false, (x.verdict.stored bson x.doc).properties)) := by
    unfold Store.found
    rw [x.uncached, x.stored]
    rfl
  unfold JudgedSubmission.answer
  rw [eval_getSubmissionById]
  exact (readsAs_stored x.verdict x.doc).told hfound auth

/-- The entry of the API is as good as the database. -/
theorem JudgedSubmission.answer_api (x : JudgedSubmission bson s) (auth : Requester) :
    x.answer auth .api = x.answer auth .database := by
  rw [x.answer_database]
  unfold JudgedSubmission.answer
  rw [eval_getSubmissionById]
  exact (readsAs_copied x.numbers x.doc).told (found_setCache (parse_stringify _)) auth

theorem JudgedSubmission.answer_judge (x : JudgedSubmission bson s) (auth : Requester) :
    x.answer auth .judge = toldBy auth x.verdict.outcome (s.problem x.doc.problemId)
      x.owner none none := by
  obtain ⟨ms, hms, hread⟩ := readsAs_judged x.numbers (x.named.2 ▸ x.isObjectId) x.encoded
  have hparse : JsValue.parse (goText x.entry) = some (obj ms) := by
    rw [parse_goText, hms]
  rw [x.named.2] at hread
  unfold JudgedSubmission.answer
  rw [eval_getSubmissionById]
  exact hread.told (found_setCache hparse) auth

/-- When the record of the judge will do for a requester: staff may see the submission from any
college, or it is of their own; a student finds it under the same user, and sees nothing
less of it as a submission to an assessment. -/
def JudgedSubmission.RecordSuffices (x : JudgedSubmission bson s) (auth : Requester) : Prop :=
  orString auth.userId "" = "" ∨
    match auth.role with
    | .superadmin => True
    | .student =>
      (auth.userId = some x.doc.userId ↔ auth.userId = some x.owner) ∧
        (auth.userId = some x.doc.userId → truthy (x.doc.assessmentId.map str) = true →
          QuietFor (s.problem x.doc.problemId) (x.verdict.stored bson x.doc).properties)
    | _ => truthy (x.doc.collegeId.map str) = true →
        idText (x.doc.collegeId.map str) = idText (auth.collegeId.map str)

/-- The judge's entry is all that matters. -/
theorem JudgedSubmission.transparent_iff (x : JudgedSubmission bson s) (auth : Requester) :
    x.Transparent auth ↔
      toldBy auth x.verdict.outcome (s.problem x.doc.problemId) x.owner none none =
        toldBy auth x.verdict.outcome (s.problem x.doc.problemId)
          x.doc.userId x.doc.collegeId x.doc.assessmentId := by
  rw [← x.answer_judge, ← x.answer_database]
  constructor
  · exact fun h => h .judge
  · rintro h (_ | _ | _)
    · rfl
    · exact x.answer_api auth
    · exact h

/-- **Cache transparency if and only if** the record of the judge suffices. -/
theorem cache_transparent_iff (x : JudgedSubmission bson s) (auth : Requester) :
    x.Transparent auth ↔ x.RecordSuffices auth := by
  rw [x.transparent_iff]
  unfold JudgedSubmission.RecordSuffices
  by_cases hblank : orString auth.userId "" = ""
  · refine iff_of_true ?_ (Or.inl hblank)
    unfold toldBy canAccessSubmission
    simp only [if_pos hblank]
    rfl
  obtain ⟨w, hw⟩ : ∃ w, auth.userId = some w := by
    cases hid : auth.userId with
    | none =>
      rw [hid] at hblank
      exact absurd rfl hblank
    | some w => exact ⟨w, rfl⟩
  have hne : w ≠ "" := by
    rintro rfl
    rw [hw] at hblank
    exact hblank rfl
  rw [or_iff_right hblank]
  -- an answer to staff tells the college only
  have hstaff : auth.role ≠ .student → auth.role ≠ .superadmin →
      (toldBy auth x.verdict.outcome (s.problem x.doc.problemId) x.owner none none =
        toldBy auth x.verdict.outcome (s.problem x.doc.problemId)
          x.doc.userId x.doc.collegeId x.doc.assessmentId ↔
        (truthy (x.doc.collegeId.map str) = true →
          idText (x.doc.collegeId.map str) = idText (auth.collegeId.map str))) := by
    intro hrole hadmin
    rw [toldBy_staff hrole hadmin hw hne, toldBy_staff hrole hadmin hw hne,
      if_pos (by intro h; cases h)]
    split_ifs with hcollege
    · exact iff_of_true rfl hcollege
    · exact iff_of_false (by intro h; cases h) hcollege
  cases hrole : auth.role with
  | superadmin =>
    refine iff_of_true ?_ trivial
    unfold toldBy canAccessSubmission
    simp only [if_neg hblank, hrole]
    rfl
  | student =>
    rw [toldBy_student hrole hw hne, toldBy_student hrole hw hne]
    have hview := (@readsAs_stored bson x.verdict x.doc).viewOf_eq_iff
      (s.problem x.doc.problemId)
    show _ ↔ (auth.userId = some x.doc.userId ↔ auth.userId = some x.owner) ∧ _
    rw [hw, Option.some.injEq, Option.some.injEq, eq_comm (a := w), eq_comm (a := w)]
    by_cases hdoc : x.doc.userId = w
    · by_cases howner : x.owner = w
      · rw [if_pos hdoc, if_pos howner, hdoc, howner, iff_self, true_and]
        cases hassessment : truthy (x.doc.assessmentId.map str) with
        | true =>
          rw [← hview]
          exact ⟨fun h _ _ => (ofView_injective h).symm, fun h => (h rfl rfl) ▸ rfl⟩
        | false => exact iff_of_true rfl fun _ h => Bool.noConfusion h
      · rw [if_pos hdoc, if_neg howner]
        exact iff_of_false (fun h => ofView_ne_forbidden _ h.symm) fun h => howner (h.1.mp hdoc)
    · by_cases howner : x.owner = w
      · rw [if_neg hdoc, if_pos howner]
        exact iff_of_false (ofView_ne_forbidden _) fun h => hdoc (h.1.mpr howner)
      · rw [if_neg hdoc, if_neg howner]
        exact iff_of_true rfl ⟨iff_of_false hdoc howner, fun h => absurd h hdoc⟩
  | admin => exact hstaff (by rw [hrole]; decide) (by rw [hrole]; decide)
  | faculty => exact hstaff (by rw [hrole]; decide) (by rw [hrole]; decide)

end Transparent

/-! ### A submission to an assessment -/

def examSubmission : Submission where
  id := "65f000000000000000000001"
  problemId := "65f0000000000000000000aa"
  userId := "alice"
  assessmentId := some "exam"
  attemptId := some "attempt"
  collegeId := some "north"
  score := .zero
  code := "print(7)"
  language := "python"
  status := .pending
  output := none
  testResult := none
  externalStudentId := none
  externalAssessmentId := none

/-- The verdict: its only test is hidden, and has written to its console. -/
def examVerdict : Verdict where
  submissionId := "65f000000000000000000001"
  problemId := "65f0000000000000000000aa"
  language := "python"
  code := "print(7)"
  collegeId := "north"
  outcome := Judge.outcome Judge.executionPathCentral
    "\x7b\"details\":[\x7b\"test\":1,\"passed\":true,\"stdout\":\"7\"\x7d],\"total\":1,\"passed\":1\x7d"
    "" none ""

def judgedExamStore : Store where
  clock := .zero
  students := []
  assessments := []
  attempts := []
  problems := [⟨"65f0000000000000000000aa", "Parity", none, some "isOdd", none,
    [⟨arr [num (.ofInt 7)], bool true, some false, some true⟩], false⟩]
  counts := []
  submissions := [examVerdict.stored (fun _ => .null) examSubmission]
  usageEvents := []
  cache := []
  queue := []

def examEntry : Json := (examVerdict.entry "alice").toOption.getD .null

theorem examVerdict_entry : examVerdict.entry "alice" = .ok examEntry := by
  have hok : (examVerdict.entry "alice").isOk = true := by decide +kernel
  unfold examEntry
  cases hj : examVerdict.entry "alice" with
  | error e =>
    rw [hj] at hok
    cases hok
  | ok j => rfl

/-- The tests of the verdict. -/
theorem tests_examVerdict : (storedDetailsOf examVerdict.outcome).map (·.test) = [1] := by
  decide +kernel

def examRecord : JudgedSubmission (fun _ => .null) judgedExamStore where
  doc := examSubmission
  verdict := examVerdict
  owner := "alice"
  entry := examEntry
  named := ⟨rfl, rfl⟩
  isObjectId := by decide
  stored := rfl
  uncached := rfl
  encoded := examVerdict_entry
  numbers := by
    intro t ht
    have hmem : t.test ∈ (storedDetailsOf examVerdict.outcome).map (·.test) :=
      List.mem_map_of_mem ht
    rw [tests_examVerdict, List.mem_singleton] at hmem
    rw [hmem]
    norm_num

/-- A teacher of another college. -/
def otherFaculty : Requester := ⟨some "bob", .faculty, some "south"⟩

def examStudent : Requester := ⟨some "alice", .student, some "north"⟩

/-- **The record of the judge opens what the document closes**: the teacher of another college
sees the submission, and the student the console of a hidden test. -/
theorem cache_transparent_fails :
    ¬examRecord.Transparent otherFaculty ∧ ¬examRecord.Transparent examStudent := by
  constructor
  · intro h
    rw [JudgedSubmission.transparent_iff, toldBy_staff (by decide) (by decide) rfl (by decide),
      toldBy_staff (by decide) (by decide) rfl (by decide), if_pos (by intro h; cases h),
      if_neg (by decide)] at h
    cases h
  · intro h
    have howner : examRecord.owner = "alice" := rfl
    have huser : examRecord.doc.userId = "alice" := rfl
    rw [JudgedSubmission.transparent_iff, toldBy_student rfl rfl (by decide),
      toldBy_student rfl rfl (by decide), if_pos howner, if_pos huser] at h
    -- which of the private members are left
    let left : Option StudentView → Option (List (Option (List Bool))) := fun view =>
      view.map fun v => v.details.map fun content => content.map fun c => c.map Option.isSome
    exact absurd (congrArg left (ofView_injective h)) (by decide +kernel)

end Api
