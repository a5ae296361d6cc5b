/-
# Results from each source

The result of a judged submission reaches the API in three ways: as the document in the
database, as a copy of that document in Redis, and as the record that the judge writes there
itself.  What the sanitizer leaves of a hidden test is the same of all three, so that it only
matters whether the submission counts as one to an assessment.

* `ReadDetail`, `ReadResult` : details and results as they are read, from whatever source.
* `ReadResult.sanitizeWithin` : what is left of hidden tests depends on the result alone.
* `Quiet` : details that are sanitized the same for an assessment and for practice.
-/
import JudgePlatform.Api.RunLabels

namespace Api

open JsValue

/-! ## Details from each source -/

/-- The console of a run, by the names of its members. -/
def consoleFields (d : Judge.TestResult) : List (String × String) :=
  [("stdout", d.stdout), ("stderr", d.stderr), ("traceback", d.traceback)]

/-- A text that an empty one leaves out. -/
def textOf (s : String) : Option JsValue := if s = "" then none else some (str s)

/-- A detail of a result as it is read, from whatever source. -/
structure ReadDetail (d : Judge.TestResult) (ms : Members) : Prop where
  test : lookup ms "test" = some (num (.ofInt d.test))
  console : ∀ e ∈ consoleFields d, lookup ms e.1 = textOf e.2
  others : ∀ k ∈ ["Test", "Stdout", "Stderr", "Traceback"], lookup ms k = none

/-- A detail that some encoding writes, and that is read back member by member. -/
theorem readDetail_of_lookup {β : Type} {E : Encoding β} {read : β → JsValue}
    {d : Judge.TestResult} {ms : Members}
    (hfields : ∀ f ∈ Judge.testResultFields, lookup ms f.name = (f.member E d).map read)
    (hothers : ∀ k ∉ Judge.testResultFields.map GoRecord.TaggedField.name, lookup ms k = none)
    (htest : read (E.int d.test) = num (.ofInt d.test)) (htext : ∀ t, read (E.string t) = str t) :
    ReadDetail d ms := by
  have hstring : ∀ t : String,
      (if GoRecord.string.isEmpty t then none else some (E.string t)).map read = textOf t := by
    intro t
    unfold textOf
    by_cases ht : t = ""
    · simp [GoRecord.string, ht]
    · simp [GoRecord.string, ht, htext]
  refine ⟨?_, fun e he => ?_, fun k hk => ?_⟩
  · rw [← htest]
    exact hfields _ (List.getElem_mem (n := 0) (by decide))
  · simp only [consoleFields, List.mem_cons, List.not_mem_nil, or_false] at he
    rcases he with rfl | rfl | rfl
    · exact (hfields _ (List.getElem_mem (n := 10) (by decide))).trans (hstring d.stdout)
    · exact (hfields _ (List.getElem_mem (n := 11) (by decide))).trans (hstring d.stderr)
    · exact (hfields _ (List.getElem_mem (n := 9) (by decide))).trans (hstring d.traceback)
  · apply hothers
    revert k
    decide

variable {bson : GoValue → JsValue} {d : Judge.TestResult}

/-- The members of a detail in the database. -/
def storedMembers (bson : GoValue → JsValue) (d : Judge.TestResult) : Members :=
  GoRecord.members Judge.testResultFields (GoRecord.bsonEncoding bson) d

theorem readDetail_stored : ReadDetail d (storedMembers bson d) := by
  refine @readDetail_of_lookup _ (GoRecord.bsonEncoding bson) id _ _ (fun f hf => ?_)
    (fun k hk => ?_) rfl fun t => rfl
  · rw [Option.map_id]
    exact GoRecord.lookup_members Judge.nodup_testResultFields hf
  · rw [lookup_eq_none_iff]
    exact fun hmem => hk (GoRecord.mem_keys_members hmem)

/-- The copy of the API, written as JSON and read again. -/
theorem readDetail_copied (h : |d.test| ≤ 2 ^ 63) :
    ReadDetail d (rereadMembers (storedMembers bson d)) := by
  have hnodup : ((storedMembers bson d).map Prod.fst).Nodup :=
    GoRecord.nodup_members Judge.nodup_testResultFields
  refine @readDetail_of_lookup _ (GoRecord.bsonEncoding bson) reread _ _ (fun f hf => ?_)
    (fun k hk => ?_) (reread_ofInt h) fun t => rfl
  · rw [lookup_rereadMembers hnodup]
    exact congrArg (Option.map reread) (GoRecord.lookup_members Judge.nodup_testResultFields hf)
  · rw [lookup_rereadMembers hnodup, Option.map_eq_none_iff, lookup_eq_none_iff]
    exact fun hmem => hk (GoRecord.mem_keys_members hmem)

/-- The copy of the judge. -/
theorem readDetail_judged {j : Json} (h : |d.test| ≤ 2 ^ 63)
    (hj : (GoRecord.record Judge.testResultFields).encode GoRecord.jsonEncoding d = .ok j) :
    ∃ ms, ofJson j = obj ms ∧ ReadDetail d ms := by
  obtain ⟨js, rfl, hnodup, hmember, hother⟩ :=
    GoRecord.exists_members Judge.nodup_testResultFields hj
  -- what is written without an error
  let read : Except String Json → JsValue := fun x => (x.toOption.map ofJson).getD null
  refine ⟨ofMembers js [], rfl, @readDetail_of_lookup _ GoRecord.jsonEncoding read _ _
    (fun f hf => ?_) (fun k hk => ?_) ?_ fun t => rfl⟩
  · rw [lookup_ofMembers_nil hnodup, hmember f hf, Option.map_map]
    rfl
  · rw [lookup_ofMembers_nil hnodup, hother k hk, Option.map_none]
  · exact congrArg num (ofNumber_ofInt h)

/-! ## What a detail tells -/

/-- The members that belong to a test or to the console of its run. -/
def privateNames : List String :=
  secretNames ++ ["stdout", "Stdout", "stderr", "Stderr", "traceback", "Traceback"]

/-- What a detail that a student gets tells of a test that is hidden. -/
def hiddenContent (testCases : List TestCase) (idx : ℕ) (v : JsValue) :
    Option (List (Option JsValue)) :=
  if isHidden testCases (spread v) idx then some (privateNames.map (lookup (spread v))) else none

/-- The members of a detail that its test case is found by. -/
def numbered (d : Judge.TestResult) : Members := [("test", num (.ofInt d.test))]

/-- What the sanitizer leaves of the private members. -/
def leftContent (isAssessment : Bool) (d : Judge.TestResult) : List (Option JsValue) :=
  secretNames.map (fun _ => none) ++
    (consoleFields d).flatMap fun e => [if isAssessment then none else textOf e.2, none]

theorem isHidden_of_test_eq {ms ms' : Members} (h : lookup ms "test" = lookup ms' "test")
    (hsome : ∃ x, lookup ms' "test" = some (num x)) (testCases : List TestCase) (idx : ℕ) :
    isHidden testCases ms idx = isHidden testCases ms' idx := by
  obtain ⟨x, hx⟩ := hsome
  have hindex : testIndex ms idx = testIndex ms' idx := by
    unfold testIndex
    simp only [firstOf, h, hx, orElse]
  unfold isHidden
  rw [hindex]

theorem ReadDetail.isHidden {ms : Members} (h : ReadDetail d ms) (testCases : List TestCase)
    (idx : ℕ) : isHidden testCases ms idx = Api.isHidden testCases (numbered d) idx :=
  isHidden_of_test_eq h.test ⟨_, rfl⟩ testCases idx

/-- The console of a detail that was read. -/
theorem ReadDetail.consoleOf {ms : Members} (h : ReadDetail d ms) :
    consoleOf ms = (consoleFields d).map fun e => (e.1, textOf e.2) := by
  have hfirst : ∀ k k' s, (k, s) ∈ consoleFields d → lookup ms k' = none →
      firstOf ms [k, k'] = textOf s := by
    intro k k' s hk hk'
    have hlookup : lookup ms k = textOf s := h.console _ hk
    unfold firstOf firstOf
    rw [hlookup, hk']
    unfold textOf
    split_ifs
    · rfl
    · rfl
  unfold Api.consoleOf
  rw [hfirst _ _ d.stdout (by simp [consoleFields]) (h.others _ (by simp)),
    hfirst _ _ d.stderr (by simp [consoleFields]) (h.others _ (by simp)),
    hfirst _ _ d.traceback (by simp [consoleFields]) (h.others _ (by simp))]
  rfl

/-- A stripped detail keeps its console, but not for an assessment. -/
theorem lookup_hiddenDetail_console (ms : Members) {e : String × Option JsValue}
    (he : e ∈ consoleOf ms) :
    lookup (hiddenDetail true ms) e.1 = none ∧ lookup (hiddenDetail false ms) e.1 = e.2 := by
  simp only [consoleOf, List.mem_cons, List.not_mem_nil, or_false] at he
  have hnone : ∀ k ∈ ["stdout", "stderr", "traceback"],
      lookup (hiddenDetail true ms) k = none := by
    intro k hk
    unfold hiddenDetail
    rw [lookup_setMembers, lookup_nil]
    revert k
    simp
  rcases he with rfl | rfl | rfl
  · exact ⟨hnone _ (by simp), lookup_setMembers_cons _ _ (by simp)⟩
  · exact ⟨hnone _ (by simp), lookup_setMembers_cons _ _ (by simp)⟩
  · exact ⟨hnone _ (by simp), lookup_setMembers_cons _ _ (by simp)⟩

/-- What a stripped detail tells: of the console alone, and of that for a practice problem. -/
theorem lookup_hiddenDetail (isAssessment : Bool) (ms : Members) :
    privateNames.map (lookup (hiddenDetail isAssessment ms)) =
      secretNames.map (fun _ => none) ++
        (consoleOf ms).flatMap fun e => [if isAssessment then none else e.2, none] := by
  cases isAssessment with
  | true =>
    have hnone : ∀ k ∈ privateNames, lookup (hiddenDetail true ms) k = none := by
      intro k hk
      unfold hiddenDetail
      rw [lookup_setMembers, lookup_nil]
      revert k
      simp [privateNames, secretNames]
    rw [List.map_congr_left hnone]
    rfl
  | false =>
    have hnone : ∀ k ∈ privateNames, k ∉ ["stdout", "stderr", "traceback"] →
        lookup (hiddenDetail false ms) k = none := by
      intro k hk hk'
      unfold hiddenDetail
      rw [lookup_setMembers, lookup_nil]
      revert k
      simp [privateNames, secretNames, consoleOf]
    have hconsole : ∀ e ∈ consoleOf ms, lookup (hiddenDetail false ms) e.1 = e.2 :=
      fun e he => (lookup_hiddenDetail_console ms he).2
    have hstdout := hconsole ("stdout", firstOf ms ["stdout", "Stdout"]) (by simp [consoleOf])
    have hstderr := hconsole ("stderr", firstOf ms ["stderr", "Stderr"]) (by simp [consoleOf])
    have htraceback := hconsole ("traceback", firstOf ms ["traceback", "Traceback"])
      (by simp [consoleOf])
    have hsecret : secretNames.map (lookup (hiddenDetail false ms)) =
        secretNames.map fun _ => none :=
      List.map_congr_left fun k hk => hnone k (List.mem_append_left _ hk) (by
        revert k
        decide)
    unfold privateNames
    rw [List.map_append, hsecret]
    simp only [List.map_cons, List.map_nil, hstdout, hstderr, htraceback,
      hnone "Stdout" (by decide) (by decide), hnone "Stderr" (by decide) (by decide),
      hnone "Traceback" (by decide) (by decide)]
    rfl

/-- **What a sanitized detail of a result tells** depends on the result and on whether it
counts as one of an assessment. -/
theorem ReadDetail.hiddenContent {ms : Members} (h : ReadDetail d ms) (testCases : List TestCase)
    (isAssessment : Bool) (idx : ℕ) :
    (sanitizeDetail testCases isAssessment idx (obj ms)).map (hiddenContent testCases idx) =
      some (if Api.isHidden testCases (numbered d) idx then some (leftContent isAssessment d)
        else none) := by
  show some (Api.hiddenContent testCases idx (obj (if Api.isHidden testCases ms idx then
    hiddenDetail isAssessment ms else shownDetail ms))) = _
  rw [h.isHidden, Option.some.injEq]
  unfold Api.hiddenContent
  by_cases hhidden : Api.isHidden testCases (numbered d) idx = true
  · have hnumber : lookup (hiddenDetail isAssessment ms) "test" = lookup (numbered d) "test" := by
      have hkept : lookup (hiddenDetail isAssessment ms) "test" = firstOf ms ["test", "Test"] := by
        refine lookup_setMembers_cons _ _ ?_
        cases isAssessment <;> simp [Api.consoleOf]
      rw [hkept]
      unfold firstOf firstOf
      rw [h.test, h.others "Test" (by simp)]
      rfl
    rw [if_pos hhidden, if_pos hhidden]
    show (if Api.isHidden testCases (hiddenDetail isAssessment ms) idx then _ else _) = _
    rw [isHidden_of_test_eq hnumber ⟨_, rfl⟩, if_pos hhidden]
    show some (privateNames.map (lookup (hiddenDetail isAssessment ms))) = _
    rw [lookup_hiddenDetail, h.consoleOf, List.flatMap_map]
    rfl
  · have hnumber : lookup (shownDetail ms) "test" = lookup (numbered d) "test" := by
      unfold shownDetail
      rw [lookup_setMembers _ _ (by simp), h.test]
      rfl
    rw [if_neg hhidden, if_neg hhidden]
    show (if Api.isHidden testCases (shownDetail ms) idx then _ else _) = _
    rw [isHidden_of_test_eq hnumber ⟨_, rfl⟩, if_neg hhidden]

/-! ## Results from each source -/

/-- The details of a result that was read. -/
def resultDetails (v : Option JsValue) : List JsValue := (detailsOf v).elim [] Prod.snd

/-- The result of a judge as it is read, from whatever source. -/
def ReadResult (details : List Judge.TestResult) (v : Option JsValue) : Prop :=
  List.Forall₂ (fun d detail => ∃ ms, detail = obj ms ∧ ReadDetail d ms) details (resultDetails v)

/-- The details that the judge stores of an execution. -/
def storedDetailsOf (o : Judge.Outcome) : List Judge.TestResult :=
  o.testResult.elim [] Judge.SubmissionResult.details

/-- What the sanitizer leaves of hidden tests, detail by detail. -/
def leftContents (testCases : List TestCase) (isAssessment : Bool)
    (details : List Judge.TestResult) : List (Option (List (Option JsValue))) :=
  details.mapIdx fun i d =>
    if isHidden testCases (numbered d) i then some (leftContent isAssessment d) else none

theorem resultDetails_obj {ms : Members} {ds : List JsValue}
    (h : lookup ms "details" = if ds = [] then none else some (arr ds)) :
    resultDetails (some (obj ms)) = ds := by
  unfold resultDetails
  simp only [detailsOf, h]
  split_ifs with hnil
  · exact hnil.symm
  · rfl

theorem ReadResult.null_not_mem {details : List Judge.TestResult} {v : Option JsValue}
    (h : ReadResult details v) : null ∉ resultDetails v := by
  intro hmem
  obtain ⟨i, hi⟩ := List.mem_iff_getElem?.mp hmem
  have hlt : i < details.length := by
    rw [h.length_eq]
    exact (List.getElem?_eq_some_iff.mp hi).1
  obtain ⟨ms, hobj, -⟩ := forall₂_getElem h (List.getElem?_eq_getElem hlt) hi
  cases hobj

/-- **A sanitized result tells the same from each source.** -/
theorem ReadResult.sanitizeWithin {details : List Judge.TestResult} {v : Option JsValue}
    (h : ReadResult details v) (testCases : List TestCase) (isAssessment : Bool) :
    ∃ v', sanitizeWithin testCases isAssessment v id v = some v' ∧
      (resultDetails v').mapIdx (hiddenContent testCases) =
        leftContents testCases isAssessment details := by
  unfold ReadResult at h
  unfold Api.sanitizeWithin sanitizeResultDetails
  cases hv : detailsOf v with
  | none =>
    have hnone : resultDetails v = [] := by
      unfold resultDetails
      rw [hv]
      rfl
    rw [hnone, List.forall₂_nil_right_iff] at h
    refine ⟨v, rfl, ?_⟩
    rw [hnone, h]
    rfl
  | some e =>
    obtain ⟨ms, raw⟩ := e
    have hraw : resultDetails v = raw := by
      unfold resultDetails
      rw [hv]
      rfl
    have hnull : null ∉ raw := hraw ▸ ReadResult.null_not_mem h
    rw [hraw] at h
    obtain ⟨rs, hrs⟩ := exists_sanitizeFrom testCases isAssessment 0 hnull
    refine ⟨some (withDetails ms rs), by simp only [hrs]; rfl, ?_⟩
    have hdetails : resultDetails (some (withDetails ms rs)) = rs := by
      unfold resultDetails
      rw [detailsOf_withDetails]
      rfl
    rw [hdetails]
    refine List.ext_getElem? fun i => ?_
    unfold leftContents
    rw [List.getElem?_mapIdx, List.getElem?_mapIdx, getElem_sanitizeFrom hrs, zero_add]
    cases hd : details[i]? with
    | none =>
      have hle : details.length ≤ i := List.getElem?_eq_none_iff.mp hd
      rw [List.getElem?_eq_none (h.length_eq ▸ hle)]
      rfl
    | some d =>
      have hlt : i < raw.length := h.length_eq ▸ (List.getElem?_eq_some_iff.mp hd).1
      obtain ⟨ms, hobj, hread⟩ := forall₂_getElem h hd (List.getElem?_eq_getElem hlt)
      rw [List.getElem?_eq_getElem hlt, hobj, Option.bind_some]
      exact hread.hiddenContent testCases isAssessment i

/-- The members of a result in the database. -/
def storedResult (bson : GoValue → JsValue) (sr : Judge.SubmissionResult) : Members :=
  GoRecord.members Judge.submissionResultFields (GoRecord.bsonEncoding bson) sr

theorem lookup_storedResult (sr : Judge.SubmissionResult) :
    lookup (storedResult bson sr) "details" =
      if sr.details = [] then none
      else some (arr (sr.details.map fun d => obj (storedMembers bson d))) := by
  have hmember : lookup (storedResult bson sr) "details" =
      if sr.details.isEmpty then none
      else some (arr (sr.details.map fun d => obj (storedMembers bson d))) :=
    GoRecord.lookup_members Judge.nodup_submissionResultFields
      (List.getElem_mem (n := 9) (by decide))
  rw [hmember]
  simp only [List.isEmpty_iff]

theorem readResult_stored (o : Judge.Outcome) :
    ReadResult (storedDetailsOf o) (some (Judge.resultDocument bson o.testResult)) := by
  unfold ReadResult storedDetailsOf
  cases o.testResult with
  | none => exact List.Forall₂.nil
  | some sr =>
    have hdetails : resultDetails (some (obj (storedResult bson sr))) =
        sr.details.map fun d => obj (storedMembers bson d) :=
      resultDetails_obj (by rw [lookup_storedResult]; simp)
    show List.Forall₂ _ sr.details (resultDetails (some (obj (storedResult bson sr))))
    rw [hdetails, List.forall₂_map_right_iff, List.forall₂_same]
    exact fun d _ => ⟨_, rfl, readDetail_stored⟩

theorem readResult_copied {o : Judge.Outcome} (h : ∀ d ∈ storedDetailsOf o, |d.test| ≤ 2 ^ 63) :
    ReadResult (storedDetailsOf o) (some (reread (Judge.resultDocument bson o.testResult))) := by
  unfold ReadResult storedDetailsOf at *
  cases ho : o.testResult with
  | none => exact List.Forall₂.nil
  | some sr =>
    rw [ho] at h
    have hdetails : resultDetails (some (obj (rereadMembers (storedResult bson sr)))) =
        sr.details.map fun d => obj (rereadMembers (storedMembers bson d)) := by
      have hnodup : ((storedResult bson sr).map Prod.fst).Nodup :=
        GoRecord.nodup_members Judge.nodup_submissionResultFields
      refine resultDetails_obj ?_
      rw [lookup_rereadMembers hnodup, lookup_storedResult]
      simp only [List.map_eq_nil_iff]
      split_ifs
      · rfl
      · rw [Option.map_some, reread_arr, List.map_map]
        rfl
    show List.Forall₂ _ sr.details
      (resultDetails (some (obj (rereadMembers (storedResult bson sr)))))
    rw [hdetails, List.forall₂_map_right_iff, List.forall₂_same]
    exact fun d hd => ⟨_, rfl, readDetail_copied (h d hd)⟩

theorem readResult_judged {sr : Judge.SubmissionResult} {j : Json}
    (h : ∀ d ∈ sr.details, |d.test| ≤ 2 ^ 63) (hj : sr.toJson = .ok j) :
    ReadResult sr.details (some (ofJson j)) := by
  obtain ⟨ms, ds, hms, hlookup, hall⟩ := exists_details_ofJson hj
  have hdetails : resultDetails (some (obj ms)) = ds.map ofJson :=
    resultDetails_obj (by rw [hlookup]; simp)
  unfold ReadResult
  rw [hms, hdetails, List.forall₂_map_right_iff]
  rw [List.forall₂_iff_get] at hall ⊢
  obtain ⟨hlength, hall⟩ := hall
  exact ⟨hlength, fun i hi hi' =>
    readDetail_judged (h _ (List.get_mem _ _)) (hall i hi hi')⟩

/-! ## Quiet results -/

/-- No hidden detail has anything of the console. -/
def Quiet (testCases : List TestCase) (ds : List JsValue) : Prop :=
  ∀ (i : ℕ) (v : JsValue), ds[i]? = some v → isHidden testCases (spread v) i = true →
    ∀ e ∈ consoleOf (spread v), e.2 = none

/-- What keeps the two ways of sanitizing a submission from being told apart: without a
problem there is nothing to take out; with a problem, no hidden test has written to its
console, or a null among the details makes the read fail. -/
def QuietFor (problem : Option Problem) (f : Properties) : Prop :=
  match problem with
  | none => True
  | some p => (∃ ds ∈ storedDetails f, null ∈ ds) ∨
      ∀ ds ∈ storedDetails f, Quiet p.testCases ds

/-- Without a console, both ways leave the same of a hidden detail. -/
theorem hiddenDetail_eq_of_console {ms : Members} (h : ∀ e ∈ consoleOf ms, e.2 = none) :
    hiddenDetail true ms = hiddenDetail false ms := by
  have happend : hiddenDetail false ms = setMembers (hiddenDetail true ms) (consoleOf ms) := by
    unfold hiddenDetail
    rw [if_neg (by decide), if_pos rfl, setMembers_append, List.append_nil]
  rw [happend]
  exact (setMembers_eq_self fun e he => ⟨h e he, (lookup_hiddenDetail_console ms he).1⟩).symm

/-- What is left of a console shows in the text. -/
theorem console_eq_none_of_toJson {ms : Members}
    (h : (obj (hiddenDetail true ms)).toJson = (obj (hiddenDetail false ms)).toJson) :
    ∀ e ∈ consoleOf ms, e.2 = none := by
  intro e he
  by_contra hsome
  obtain ⟨htrue, hfalse⟩ := lookup_hiddenDetail_console ms he
  rw [← hfalse] at hsome
  have hkey : e.1 ∈ (hiddenDetail false ms).map Prod.fst := by
    by_contra hnot
    exact hsome (lookup_eq_none_iff.mpr hnot)
  exact lookup_eq_none_iff.mp htrue (mem_keys_of_toJson_eq h.symm hkey)

section Quiet

variable {testCases : List TestCase} {ds : List JsValue}

theorem sanitizeDetail_of_ne_null {v : JsValue} (hv : v ≠ null) (isAssessment : Bool) (idx : ℕ) :
    sanitizeDetail testCases isAssessment idx v =
      some (obj (if isHidden testCases (spread v) idx then hiddenDetail isAssessment (spread v)
        else shownDetail (spread v))) := by
  cases v with
  | null => exact absurd rfl hv
  | _ => rfl

/-- Quiet details are sanitized the same both ways. -/
theorem Quiet.sanitizeFrom (h : Quiet testCases ds) :
    sanitizeFrom testCases true 0 ds = sanitizeFrom testCases false 0 ds := by
  by_cases hnull : null ∈ ds
  · rw [(sanitizeFrom_eq_none_iff _ _ _ _).mpr hnull, (sanitizeFrom_eq_none_iff _ _ _ _).mpr hnull]
  · obtain ⟨rs, hrs⟩ := exists_sanitizeFrom testCases true 0 hnull
    obtain ⟨rs', hrs'⟩ := exists_sanitizeFrom testCases false 0 hnull
    rw [hrs, hrs', Option.some.injEq]
    refine List.ext_getElem? fun i => ?_
    rw [getElem_sanitizeFrom hrs, getElem_sanitizeFrom hrs', zero_add]
    cases hv : ds[i]? with
    | none => rfl
    | some v =>
      have hne : v ≠ null := fun heq => hnull (heq ▸ List.mem_of_getElem? hv)
      rw [Option.bind_some, Option.bind_some, sanitizeDetail_of_ne_null hne,
        sanitizeDetail_of_ne_null hne]
      split_ifs with hhidden
      · rw [hiddenDetail_eq_of_console (h i v hv hhidden)]
      · rfl

/-- Details that are written alike both ways are quiet. -/
theorem quiet_of_toJson {rs rs' : List JsValue} (hnull : null ∉ ds)
    (hrs : sanitizeFrom testCases true 0 ds = some rs)
    (hrs' : sanitizeFrom testCases false 0 ds = some rs')
    (h : (arr rs).toJson = (arr rs').toJson) : Quiet testCases ds := by
  intro i v hv hhidden
  have hne : v ≠ null := fun heq => hnull (heq ▸ List.mem_of_getElem? hv)
  have hi : rs[i]? = some (obj (hiddenDetail true (spread v))) := by
    rw [getElem_sanitizeFrom hrs, hv, zero_add, Option.bind_some, sanitizeDetail_of_ne_null hne,
      if_pos hhidden]
  have hi' : rs'[i]? = some (obj (hiddenDetail false (spread v))) := by
    rw [getElem_sanitizeFrom hrs', hv, zero_add, Option.bind_some, sanitizeDetail_of_ne_null hne,
      if_pos hhidden]
  simp only [toJson, Json.arr.injEq, toElements_eq] at h
  have heq := congrArg (fun l => l[i]?) h
  simp only [List.getElem?_map, hi, hi', Option.map_some, Option.some.injEq] at heq
  exact console_eq_none_of_toJson heq

theorem sanitizeWithin_of_null {v : Option JsValue} (h : null ∈ resultDetails v)
    {isAssessment : Bool} {write : JsValue → JsValue} {other : Option JsValue} :
    sanitizeWithin testCases isAssessment v write other = none := by
  rw [sanitizeWithin_eq_none]
  unfold resultDetails at h
  cases hv : detailsOf v with
  | none =>
    rw [hv] at h
    cases h
  | some e =>
    rw [hv] at h
    exact ⟨e.1, e.2, rfl, h⟩

theorem exists_sanitizeWithin (testCases : List TestCase) (isAssessment : Bool)
    (write : JsValue → JsValue) {v : Option JsValue} (h : null ∉ resultDetails v)
    (other : JsValue) :
    ∃ w, sanitizeWithin testCases isAssessment v write (some other) = some (some w) := by
  unfold sanitizeWithin sanitizeResultDetails
  cases hv : detailsOf v with
  | none => exact ⟨other, rfl⟩
  | some e =>
    unfold resultDetails at h
    rw [hv] at h
    obtain ⟨rs, hrs⟩ := exists_sanitizeFrom testCases isAssessment 0 h
    exact ⟨_, congrArg (Option.map _) hrs⟩

/-- **A text is sanitized the same both ways** exactly when its details are quiet, or sanitizing
them fails. -/
theorem sanitizeWithin_text_eq_iff (v other : Option JsValue) :
    sanitizeWithin testCases true v (fun v => str (stringify v)) other =
      sanitizeWithin testCases false v (fun v => str (stringify v)) other ↔
      null ∈ resultDetails v ∨ Quiet testCases (resultDetails v) := by
  unfold sanitizeWithin sanitizeResultDetails resultDetails
  cases detailsOf v with
  | none => exact iff_of_true rfl (Or.inr fun i v hi => nomatch hi)
  | some e =>
    obtain ⟨ms, ds⟩ := e
    show (sanitizeFrom testCases true 0 ds).map _ = (sanitizeFrom testCases false 0 ds).map _ ↔
      null ∈ ds ∨ Quiet testCases ds
    constructor
    · intro h
      by_contra hnot
      obtain ⟨hnull, hquiet⟩ := not_or.mp hnot
      obtain ⟨rs, hrs⟩ := exists_sanitizeFrom testCases true 0 hnull
      obtain ⟨rs', hrs'⟩ := exists_sanitizeFrom testCases false 0 hnull
      rw [hrs, hrs', Option.map_some, Option.map_some, Option.some.injEq, Option.some.injEq] at h
      have htext := toJson_of_stringify (JsValue.str.inj h)
      exact hquiet (quiet_of_toJson hnull hrs hrs'
        ((holds_setMember ms "details" (arr rs)).toJson_eq
          (holds_setMember ms "details" (arr rs')) htext))
    · rintro (hnull | hquiet)
      · rw [(sanitizeFrom_eq_none_iff _ _ _ _).mpr hnull,
          (sanitizeFrom_eq_none_iff _ _ _ _).mpr hnull]
      · rw [hquiet.sanitizeFrom]

end Quiet

theorem leftContent_eq_iff (d : Judge.TestResult) :
    leftContent true d = leftContent false d ↔ ∀ e ∈ consoleFields d, textOf e.2 = none := by
  unfold leftContent consoleFields
  simp [eq_comm]

/-- **The contents of a result are left the same both ways** exactly when its details are quiet. -/
theorem ReadResult.leftContents_eq_iff {details : List Judge.TestResult} {v : Option JsValue}
    (h : ReadResult details v) (testCases : List TestCase) :
    leftContents testCases true details = leftContents testCases false details ↔
      Quiet testCases (resultDetails v) := by
  have hread : ∀ (i : ℕ) (d : Judge.TestResult) (detail : JsValue), details[i]? = some d →
      (resultDetails v)[i]? = some detail →
      isHidden testCases (spread detail) i = isHidden testCases (numbered d) i ∧
        consoleOf (spread detail) = (consoleFields d).map fun e => (e.1, textOf e.2) := by
    intro i d detail hd hdetail
    obtain ⟨ms, rfl, hms⟩ := forall₂_getElem h hd hdetail
    exact ⟨hms.isHidden testCases i, hms.consoleOf⟩
  constructor
  · intro heq i detail hdetail hhidden e he
    have hlt : i < details.length := by
      rw [h.length_eq]
      exact (List.getElem?_eq_some_iff.mp hdetail).1
    obtain ⟨hnumber, hconsole⟩ := hread i _ detail (List.getElem?_eq_getElem hlt) hdetail
    have hi := congrArg (fun l => l[i]?) heq
    unfold leftContents at hi
    simp only [List.getElem?_mapIdx, List.getElem?_eq_getElem hlt, Option.map_some,
      ← hnumber, hhidden, if_true, Option.some.injEq] at hi
    rw [hconsole] at he
    obtain ⟨e', he', rfl⟩ := List.mem_map.mp he
    exact (leftContent_eq_iff _).mp hi e' he'
  · intro hquiet
    unfold leftContents
    refine List.ext_getElem? fun i => ?_
    rw [List.getElem?_mapIdx, List.getElem?_mapIdx]
    cases hd : details[i]? with
    | none => rfl
    | some d =>
      have hlt : i < (resultDetails v).length := by
        rw [← h.length_eq]
        exact (List.getElem?_eq_some_iff.mp hd).1
      obtain ⟨hnumber, hconsole⟩ := hread i d _ hd (List.getElem?_eq_getElem hlt)
      rw [Option.map_some, Option.map_some]
      split_ifs with hhidden
      · have hleft : leftContent true d = leftContent false d := by
          rw [leftContent_eq_iff]
          intro e he
          refine hquiet i _ (List.getElem?_eq_getElem hlt) (hnumber.trans hhidden)
            (e.1, textOf e.2) ?_
          rw [hconsole]
          exact List.mem_map_of_mem he
        rw [hleft]
      · rfl

/-- A submission is quiet when its output and its result are. -/
theorem quietFor_some (p : Problem) (f : Properties) :
    QuietFor (some p) f ↔
      (null ∈ resultDetails (parseOutputJSON (f "output")) ∨
        null ∈ resultDetails (f "testResult")) ∨
      Quiet p.testCases (resultDetails (parseOutputJSON (f "output"))) ∧
        Quiet p.testCases (resultDetails (f "testResult")) := by
  have hnull : ∀ v, (∃ ds, (∃ ms, detailsOf v = some (ms, ds)) ∧ null ∈ ds) ↔
      null ∈ resultDetails v := by
    intro v
    unfold resultDetails
    cases detailsOf v with
    | none => simp
    | some e => simp [Prod.ext_iff]
  have hquiet : ∀ v, (∀ ds, (∃ ms, detailsOf v = some (ms, ds)) → Quiet p.testCases ds) ↔
      Quiet p.testCases (resultDetails v) := by
    intro v
    unfold resultDetails
    cases detailsOf v with
    | none => simp [Quiet]
    | some e => simp [Prod.ext_iff]
  show ((∃ ds ∈ storedDetails f, null ∈ ds) ∨ ∀ ds ∈ storedDetails f, Quiet p.testCases ds) ↔ _
  simp only [mem_storedDetails, or_and_right, exists_or, or_imp, forall_and, hnull, hquiet]

end Api
