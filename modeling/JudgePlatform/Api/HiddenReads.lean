/-
# Hidden tests and the reads of students

`read_eq_iff` : the answer to a student's read tells no states apart that are alike
but for hidden tests, if and only if the read is covered.

* One direction follows the read: alike states hold alike submissions, and a covered
  one is shown the same.
* For the other, a detail of a hidden test that is shown is given the outputs true
  and false in turn; `reveal` is such a change of one detail.
-/
import JudgePlatform.Api.HiddenTests

namespace Api

open JsValue

/-! ## Alike states hold alike records -/

/-- Searching related lists for related entries. -/
theorem forall₂_find? {α β : Type} {R : α → β → Prop} {p : α → Bool} {q : β → Bool}
    {l : List α} {l' : List β} (h : List.Forall₂ R l l') (hpq : ∀ a b, R a b → p a = q b) :
    (l.find? p = none ∧ l'.find? q = none) ∨
      ∃ a b, l.find? p = some a ∧ l'.find? q = some b ∧ R a b := by
  induction h with
  | nil => exact Or.inl ⟨rfl, rfl⟩
  | @cons a b l l' hab _ ih =>
    rw [List.find?_cons, List.find?_cons, ← hpq a b hab]
    cases p a with
    | true => exact Or.inr ⟨a, b, rfl, rfl, hab⟩
    | false => exact ih

theorem AlikeSubmission.properties {hidden : HiddenTests} {d d' : Submission}
    (h : AlikeSubmission hidden d d') :
    AlikeProperties (hidden.of (d.properties "problemId")) d.properties d'.properties := by
  refine ⟨fun k ho hr => ?_, ?_, ?_⟩
  · rw [h.rest, properties_with, Function.update_of_ne hr, Function.update_of_ne ho]
  · rw [properties_output, properties_output, properties_problemId]
    exact h.output
  · rw [properties_testResult, properties_testResult, properties_problemId]
    exact h.testResult

section Forward

variable {hidden : HiddenTests} {s s' : Store} (h : Alike hidden s s')

include h

theorem Alike.problem (id : ObjectId) :
    (s.problem id = none ∧ s'.problem id = none) ∨
      ∃ p p', s.problem id = some p ∧ s'.problem id = some p' ∧ AlikeProblem p p' :=
  forall₂_find? h.problems fun p p' hp => by rw [hp.rest]

theorem Alike.problemOf (v : Option JsValue) :
    (s.problemOf v = none ∧ s'.problemOf v = none) ∨
      ∃ p p', s.problemOf v = some p ∧ s'.problemOf v = some p' ∧ AlikeProblem p p' := by
  unfold Store.problemOf
  split
  · exact h.problem _
  · exact Or.inl ⟨rfl, rfl⟩

theorem Alike.submission (id : ObjectId) :
    (s.submission id = none ∧ s'.submission id = none) ∨
      ∃ d d', s.submission id = some d ∧ s'.submission id = some d' ∧ AlikeSubmission hidden d d' :=
  forall₂_find? h.submissions fun d d' hd => by rw [hd.rest]

theorem Alike.cached (key : String) :
    s.cached key = s'.cached key ∨ ∃ t t' ms ms', s.cached key = some t ∧ s'.cached key = some t' ∧
      JsValue.parse t = some (obj ms) ∧ JsValue.parse t' = some (obj ms') ∧
      AlikeProperties (hidden.of (lookup ms "problemId")) (lookup ms) (lookup ms') := by
  unfold Store.cached
  rcases forall₂_find? (p := fun e => e.1 = key) (q := fun e => e.1 = key) h.cache
      fun e e' he => by rw [he.key] with ⟨hnone, hnone'⟩ | ⟨e, e', he, he', hentry⟩
  · left
    rw [hnone, hnone']
  · rw [he, he']
    rcases hentry.text with htext | ⟨ms, ms', hms, hms', halike⟩
    · exact Or.inl (congrArg some htext)
    · exact Or.inr ⟨e.2, e'.2, ms, ms', rfl, rfl, hms, hms', halike⟩

/-- **Alike states have alike submissions to show.** -/
theorem Alike.found (id : ObjectId) :
    (∃ e, s.found id = .error e ∧ s'.found id = .error e) ∨
    (s.found id = .ok none ∧ s'.found id = .ok none) ∨
    ∃ cached f f', s.found id = .ok (some (cached, f)) ∧ s'.found id = .ok (some (cached, f')) ∧
      AlikeProperties (hidden.of (f "problemId")) f f' := by
  have hstored : ∀ t : Store → Except ServiceError (Option (Bool × Properties)),
      (∀ s, t s = .ok ((s.submission id).map fun d => (false, d.properties))) →
      (t s = .ok none ∧ t s' = .ok none) ∨
        ∃ cached f f', t s = .ok (some (cached, f)) ∧ t s' = .ok (some (cached, f')) ∧
          AlikeProperties (hidden.of (f "problemId")) f f' := by
    intro t ht
    rw [ht, ht]
    rcases h.submission id with ⟨hnone, hnone'⟩ | ⟨d, d', hd, hd', halike⟩
    · rw [hnone, hnone']
      exact Or.inl ⟨rfl, rfl⟩
    · rw [hd, hd']
      exact Or.inr ⟨false, _, _, rfl, rfl, halike.properties⟩
  rcases h.cached (cacheKey id) with heq | ⟨t, t', ms, ms', ht, ht', hms, hms', halike⟩
  · unfold Store.found
    rw [← heq]
    cases parsedEntry (s.cached (cacheKey id)) with
    | error e => exact Or.inl ⟨e, rfl, rfl⟩
    | ok cached =>
      cases hv : cached.filter fun v => truthy (some v) with
      | some v =>
        simp only [hv]
        refine Or.inr (Or.inr ⟨true, _, _, rfl, rfl, fun _ _ _ => rfl, Or.inl rfl, Or.inl rfl⟩)
      | none =>
        simp only [hv]
        exact Or.inr (hstored (fun s => .ok ((s.submission id).map fun d => (false, d.properties)))
          fun _ => rfl)
  · have hne : ∀ {t : String} {ms : Members}, JsValue.parse t = some (obj ms) → t ≠ "" := by
      rintro t ms hparse rfl
      have hempty : JsValue.parse "" = none := by decide +kernel
      exact absurd (hempty.symm.trans hparse) (by simp)
    refine Or.inr (Or.inr ⟨true, lookup ms, lookup ms', ?_, ?_, halike⟩)
    · simp only [Store.found, ht, parsedEntry, if_neg (hne hms), hms]
      rfl
    · simp only [Store.found, ht', parsedEntry, if_neg (hne hms'), hms']
      rfl

end Forward

/-! ## Covered reads tell nothing -/

theorem answer_byId (s : Store) (id : ObjectId) (userId collegeId : Option ObjectId) :
    (StudentRead.byId id userId collegeId).answer s =
      (s.read id ⟨userId, .student, collegeId⟩).map StudentResponse.submission := by
  show (Program.eval serveAll s (StudentResponse.submission <$> _)).1 = _
  rw [Program.eval_map, eval_getSubmissionById]

theorem answer_mine (s : Store) (userId : ObjectId) (page limit : ℤ) :
    (StudentRead.mine userId page limit).answer s = .ok (.list
      ((s.myPage userId page limit).map fun d => listedSubmission d (s.problem d.problemId))) := by
  show (Program.eval serveAll s (StudentResponse.list <$> _)).1 = _
  rw [Program.eval_map, eval_getMySubmissions]
  rfl

/-- Access does not depend on the results. -/
theorem canAccessSubmission_congr {f f' : Properties} (h : f' "userId" = f "userId")
    (h' : f' "collegeId" = f "collegeId") (auth : Requester) :
    canAccessSubmission f' auth = canAccessSubmission f auth := by
  unfold canAccessSubmission
  rw [h, h']

theorem shown_student (userId collegeId : Option ObjectId) (problem : Option Problem)
    (cached : Bool) (f : Properties) :
    shown ⟨userId, .student, collegeId⟩ problem cached f =
      match sanitizeSubmissionForStudent f problem with
      | some g => .ok (.found cached g)
      | none => .error .typeError := rfl

theorem sanitize_congr {p p' : Problem} (h : AlikeProblem p p') (f : Properties) :
    sanitizeSubmissionForStudent f (some p) = sanitizeSubmissionForStudent f (some p') := by
  have hwithin : ∀ a v write other, sanitizeWithin p.testCases a v write other =
      sanitizeWithin p'.testCases a v write other := by
    intro a v write other
    unfold sanitizeWithin sanitizeResultDetails
    simp only [sanitizeFrom_congr h.tests]
  unfold sanitizeSubmissionForStudent
  simp only [hwithin]

section Forward

variable {hidden : HiddenTests} {s s' : Store} (h : Alike hidden s s')

include h

theorem Alike.myPage (userId : ObjectId) (page limit : ℤ) :
    List.Forall₂ (AlikeSubmission hidden) (s.myPage userId page limit)
      (s'.myPage userId page limit) := by
  refine List.forall₂_take _ (List.forall₂_drop _ ?_)
  refine List.rel_filter (fun d d' hd => ?_) (List.forall₂_reverse_iff.mpr h.submissions)
  rw [hd.rest]

theorem Alike.listedSubmission_eq {d d' : Submission} (hd : AlikeSubmission hidden d d')
    (hcovered : Covered (hidden d.problemId) none d.properties) :
    listedSubmission d (s.problem d.problemId) = listedSubmission d' (s'.problem d'.problemId) := by
  have halike := hd.properties
  rw [properties_problemId] at halike
  have heq := eq_of_covered_none halike hcovered
  have houtput : d'.output = d.output := by
    have hmap := congrFun heq "output"
    rw [properties_output, properties_output] at hmap
    exact (Option.map_injective (fun _ _ h => JsValue.str.inj h) hmap).symm
  have hresult : d'.testResult = d.testResult := by
    have hmap := congrFun heq "testResult"
    rw [properties_testResult, properties_testResult] at hmap
    exact hmap.symm
  have hd' : d' = d := by
    rw [hd.rest, houtput, hresult]
  subst hd'
  rcases h.problem d'.problemId with ⟨hnone, hnone'⟩ | ⟨p, p', hp, hp', halike⟩
  · rw [hnone, hnone']
  · rw [hp, hp']
    unfold listedSubmission
    rw [halike.rest]

/-- **A covered read is answered the same** in alike states. -/
theorem Alike.answer_eq {r : StudentRead} (hcovered : r.Covered hidden s) :
    r.answer s' = r.answer s := by
  cases r with
  | byId id userId collegeId =>
    rw [answer_byId, answer_byId]
    refine congrArg _ ?_
    unfold Store.read
    rcases h.found id with ⟨e, hs, hs'⟩ | ⟨hs, hs'⟩ | ⟨cached, f, f', hs, hs', halike⟩
    · rw [hs, hs']
    · rw [hs, hs']
    · rw [hs, hs']
      have hproblemId : f' "problemId" = f "problemId" := halike.rest _ (by decide) (by decide)
      have haccess := canAccessSubmission_congr (halike.rest "userId" (by decide) (by decide))
        (halike.rest "collegeId" (by decide) (by decide)) ⟨userId, .student, collegeId⟩
      simp only [haccess, hproblemId]
      by_cases ha : canAccessSubmission f ⟨userId, .student, collegeId⟩ = true
      · rw [if_pos ha, if_pos ha, shown_student, shown_student]
        have hcov := hcovered cached f hs ha
        rcases h.problemOf (f "problemId") with ⟨hp, hp'⟩ | ⟨p, p', hp, hp', hproblem⟩
        · rw [hp] at hcov ⊢
          rw [hp', eq_of_covered_none halike hcov]
        · rw [hp] at hcov ⊢
          rw [hp', ← sanitize_congr hproblem, ← sanitize_eq_of_covered halike hcov]
      · rw [if_neg ha, if_neg ha]
  | mine userId page limit =>
    rw [answer_mine, answer_mine]
    refine congrArg (fun rows => Except.ok (StudentResponse.list rows)) ?_
    have hpage := h.myPage userId page limit
    have hrows : List.Forall₂ (· = ·)
        ((s.myPage userId page limit).map fun d => listedSubmission d (s.problem d.problemId))
        ((s'.myPage userId page limit).map fun d => listedSubmission d (s'.problem d.problemId)) := by
      rw [List.forall₂_map_left_iff, List.forall₂_map_right_iff]
      have hmem : ∀ d ∈ s.myPage userId page limit,
          Api.Covered (hidden d.problemId) none d.properties := hcovered
      clear hcovered
      generalize s.myPage userId page limit = ds, s'.myPage userId page limit = ds' at hpage hmem ⊢
      induction hpage with
      | nil => exact .nil
      | cons hd _ ih =>
        exact .cons (h.listedSubmission_eq hd (hmem _ List.mem_cons_self))
          (ih fun d hd => hmem d (List.mem_cons_of_mem _ hd))
    exact (List.forall₂_eq_eq_eq ▸ hrows).symm

end Forward

/-! ## Changing one detail -/

/-- A detail with another output. -/
def reveal (detail : Members) (b : Bool) : JsValue := obj (setMember detail "output" (some (bool b)))

theorem publicMembers_setMember {k : String} (hk : k ∈ secretNames) (ms : Members) (v : JsValue) :
    publicMembers (setMember ms k (some v)) = publicMembers ms := by
  unfold publicMembers
  simp only [setMember]
  split
  · rw [List.filter_map]
    have hpred : ∀ m ∈ ms, ((fun m : String × JsValue => decide (m.1 ∉ secretNames)) ∘
        fun m => if m.1 = k then (k, v) else m) m = decide (m.1 ∉ secretNames) := by
      intro m _
      by_cases hm : m.1 = k
      · simp [hm]
      · simp [hm]
    rw [List.filter_congr hpred]
    refine (List.map_congr_left fun m hm => ?_).trans (List.map_id' _)
    have hm' : m.1 ∉ secretNames := by simpa using (List.mem_filter.mp hm).2
    exact if_neg fun hmk => hm' (by rwa [hmk])
  · rw [List.filter_append]
    simp [hk]

theorem alikeDetails_refl (h : ℤ → Prop) (idx : ℕ) (ds : List JsValue) :
    AlikeDetails h idx ds ds := by
  induction ds generalizing idx with
  | nil => exact .nil
  | cons d ds ih => exact .same (ih _)

theorem alikeDetails_set {h : ℤ → Prop} {idx i : ℕ} {ds : List JsValue} {detail : Members}
    (hi : ds[i]? = some (obj detail)) (hh : h (testIndex detail (idx + i))) (b : Bool) :
    AlikeDetails h idx ds (ds.set i (reveal detail b)) := by
  induction ds generalizing idx i with
  | nil => cases hi
  | cons d ds ih =>
    cases i with
    | zero =>
      rw [List.getElem?_cons_zero, Option.some.injEq] at hi
      subst hi
      exact .hidden hh (publicMembers_setMember (by decide) _ _).symm (alikeDetails_refl _ _ _)
    | succ i =>
      refine .same (ih (by simpa using hi) ?_)
      rwa [show idx + 1 + i = idx + (i + 1) by omega]

/-- The two changes differ. -/
theorem set_reveal_ne {ds : List JsValue} {i : ℕ} {detail : Members}
    (hi : ds[i]? = some (obj detail)) :
    ds.set i (reveal detail true) ≠ ds.set i (reveal detail false) := by
  intro heq
  have hlt : i < ds.length := (List.getElem?_eq_some_iff.mp hi).1
  have hget := congrArg (fun l => l[i]?) heq
  simp only [List.getElem?_set_self hlt, Option.some.injEq, reveal, JsValue.obj.injEq] at hget
  have hlookup := congrArg (fun ms => lookup ms "output") hget
  simp [lookup_setMember] at hlookup

/-- What parsing has made can be made again with a changed detail. -/
theorem exists_ofJson_reveal {j : Json} {ms : Members} {ds : List JsValue} {i : ℕ}
    {detail : Members} (hj : ofJson j = obj ms) (hds : detailsOf (some (obj ms)) = some (ms, ds))
    (hi : ds[i]? = some (obj detail)) (b : Bool) :
    ∃ j', ofJson j' = withDetails ms (ds.set i (reveal detail b)) := by
  have hobj : ∀ {j : Json} {ms : Members}, ofJson j = obj ms →
      ∃ jms, j = .obj jms ∧ ofMembers jms [] = ms := by
    intro j ms h
    cases j with
    | obj jms => exact ⟨jms, rfl, JsValue.obj.inj h⟩
    | _ => cases h
  obtain ⟨jms, rfl, rfl⟩ := hobj hj
  obtain ⟨jd, -, hjd⟩ := (mem_of_lookup_ofMembers (detailsOf_eq_some hds).2).resolve_right
    (by simp)
  cases jd with
  | arr jds =>
    have hmap : ds = jds.map ofJson := by
      rw [← ofElements_eq]
      exact (JsValue.arr.inj hjd).symm
    rw [hmap, List.getElem?_map, Option.map_eq_some_iff] at hi
    obtain ⟨jdetail, hjdetail, hdetail⟩ := hi
    obtain ⟨jm, rfl, hjm⟩ := hobj hdetail
    refine ⟨.obj (jms ++ [("details", .arr (jds.set i (.obj (jm ++ [("output", .bool b)]))))]), ?_⟩
    show obj (ofMembers _ []) = obj _
    rw [ofMembers_append]
    show obj (setMember _ "details" (some (arr (ofElements _)))) = obj _
    rw [ofElements_eq, List.map_set, hmap]
    show obj (setMember _ "details" (some (arr ((jds.map ofJson).set i
      (obj (ofMembers (jm ++ [("output", .bool b)]) [])))))) = _
    rw [ofMembers_append, hjm]
    rfl
  | _ => cases hjd

/-! ## What a shown detail tells -/

theorem sanitizeWithin_of_withDetails (tcs : List TestCase) (isAssessment : Bool) (ms : Members)
    (ds : List JsValue) (write : JsValue → JsValue) (other : Option JsValue) :
    sanitizeWithin tcs isAssessment (some (withDetails ms ds)) write other =
      (sanitizeFrom tcs isAssessment 0 ds).map fun rs => some (write (withDetails ms rs)) := by
  unfold sanitizeWithin sanitizeResultDetails
  rw [detailsOf_withDetails]
  simp only [withDetails_setMember]

theorem holds_shownDetail (detail : Members) (b : Bool) :
    Holds (shownDetail (setMember detail "output" (some (bool b)))) "output" (bool b) := by
  have houtput : firstOf (setMember detail "output" (some (bool b))) ["output", "Output"] =
      some (bool b) := by
    simp [firstOf, lookup_setMember, orElse]
  unfold shownDetail
  simp only [setMembers, houtput]
  refine Holds.setMember (Holds.setMember (Holds.setMember (Holds.setMember (Holds.setMember
    (Holds.setMember (holds_setMember _ "output" (bool b)) ?_ _) ?_ _) ?_ _) ?_ _) ?_ _) ?_ _
  all_goals decide

/-- **A shown detail tells its output**, however the details are written. -/
theorem sanitizeWithin_reveal_ne {tcs : List TestCase} {isAssessment : Bool} {ms : Members}
    {ds : List JsValue} {i : ℕ} {detail : Members} (hi : ds[i]? = some (obj detail))
    (hshown : isHidden tcs detail i = false) (hnull : null ∉ ds) {write : JsValue → JsValue}
    (hwrite : ∀ v w, write v = write w → v.toJson = w.toJson) (other : Option JsValue) :
    sanitizeWithin tcs isAssessment (some (withDetails ms (ds.set i (reveal detail true)))) write
        other ≠
      sanitizeWithin tcs isAssessment (some (withDetails ms (ds.set i (reveal detail false)))) write
        other := by
  intro heq
  have hlt : i < ds.length := (List.getElem?_eq_some_iff.mp hi).1
  have hsome : ∀ b, ∃ rs, sanitizeFrom tcs isAssessment 0 (ds.set i (reveal detail b)) = some rs ∧
      rs[i]? = some (obj (shownDetail (setMember detail "output" (some (bool b))))) := by
    intro b
    cases hrs : sanitizeFrom tcs isAssessment 0 (ds.set i (reveal detail b)) with
    | none =>
      rw [sanitizeFrom_eq_none_iff] at hrs
      rcases List.mem_or_eq_of_mem_set hrs with hmem | hmem
      · exact absurd hmem hnull
      · cases hmem
    | some rs =>
      refine ⟨rs, rfl, ?_⟩
      have hhidden : isHidden tcs (setMember detail "output" (some (bool b))) i = false := by
        rw [isHidden_eq (publicMembers_setMember (by decide) detail (bool b)), hshown]
      rw [getElem_sanitizeFrom hrs i, List.getElem?_set_self hlt, Nat.zero_add]
      simp [reveal, sanitizeDetail, spread, hhidden]
  obtain ⟨rs, hrs, hget⟩ := hsome true
  obtain ⟨rs', hrs', hget'⟩ := hsome false
  rw [sanitizeWithin_of_withDetails, sanitizeWithin_of_withDetails, hrs, hrs'] at heq
  simp only [Option.map_some, Option.some.injEq] at heq
  have harr := (holds_setMember ms "details" (arr rs)).toJson_eq
    (holds_setMember ms "details" (arr rs')) (hwrite _ _ heq)
  simp only [toJson, Json.arr.injEq, toElements_eq] at harr
  have hdetail := congrArg (fun l => l[i]?) harr
  simp only [List.getElem?_map, hget, hget', Option.map_some, Option.some.injEq] at hdetail
  have hbool := (holds_shownDetail detail true).toJson_eq (holds_shownDetail detail false) hdetail
  simp [toJson] at hbool

/-! ## Alike states with a changed submission -/

theorem alikeSubmission_refl (hidden : HiddenTests) (d : Submission) : AlikeSubmission hidden d d :=
  ⟨rfl, Or.inl rfl, Or.inl rfl⟩

theorem forall₂_map_self {α : Type} {R : α → α → Prop} {f : α → α} {l : List α}
    (h : ∀ a ∈ l, R a (f a)) : List.Forall₂ R l (l.map f) := by
  rw [List.forall₂_map_right_iff, List.forall₂_same]
  exact h

theorem alikeProblems_refl (ps : List Problem) : List.Forall₂ AlikeProblem ps ps :=
  List.forall₂_same.mpr fun _ _ => ⟨rfl, List.forall₂_same.mpr fun _ _ => ⟨rfl, fun _ => rfl⟩⟩

/-- Searching changed entries for the change of an entry. -/
theorem find?_map_of {α : Type} {p : α → Bool} {f : α → α} (hp : ∀ a, p (f a) = p a)
    (l : List α) : (l.map f).find? p = (l.find? p).map f := by
  rw [List.find?_map, show p ∘ f = p from funext hp]

open Classical in
/-- A state with one stored submission changed. -/
noncomputable def withSubmission (s : Store) (d d' : Submission) : Store :=
  { s with submissions := s.submissions.map fun e => if e = d then d' else e }

theorem alike_withSubmission {hidden : HiddenTests} {d d' : Submission}
    (h : AlikeSubmission hidden d d') (s : Store) : Alike hidden s (withSubmission s d d') := by
  refine ⟨rfl, alikeProblems_refl _, forall₂_map_self fun e _ => ?_,
    List.forall₂_same.mpr fun _ _ => ⟨rfl, Or.inl rfl⟩⟩
  split
  · rename_i he
    exact he ▸ h
  · exact alikeSubmission_refl hidden e

theorem submission_withSubmission {s : Store} {id : ObjectId} {d d' : Submission}
    (hd : s.submission id = some d) (hid : d'.id = d.id) :
    (withSubmission s d d').submission id = some d' := by
  unfold Store.submission findDoc withSubmission at *
  rw [find?_map_of, hd, Option.map_some, if_pos rfl]
  intro e
  split
  · rename_i he
    rw [hid, he]
  · rfl

/-- A state with the text of one cache entry changed. -/
def withEntry (s : Store) (key text text' : String) : Store :=
  { s with cache := s.cache.map fun e => if e = (key, text) then (key, text') else e }

theorem cached_withEntry {s : Store} {key text : String} (h : s.cached key = some text)
    (text' : String) : (withEntry s key text text').cached key = some text' := by
  unfold Store.cached withEntry at *
  obtain ⟨⟨i, t⟩, hfind, rfl⟩ := Option.map_eq_some_iff.mp h
  have hi : i = key := by simpa using List.find?_some hfind
  subst hi
  rw [find?_map_of, hfind, Option.map_some, if_pos rfl]
  · rfl
  · intro e
    split
    · rename_i he
      rw [he]
    · rfl

/-- A property of a cached submission stands in a text. -/
theorem found_cached {s : Store} {id : ObjectId} {f : Properties}
    (h : s.found id = .ok (some (true, f))) {k : String} (hk : f k ≠ none) :
    ∃ text jms, s.cached (cacheKey id) = some text ∧ Json.parse text = some (.obj jms) ∧
      f = lookup (ofMembers jms []) := by
  unfold Store.found parsedEntry at h
  cases hcached : s.cached (cacheKey id) with
  | none =>
    simp only [hcached, Option.filter_none, Except.ok.injEq, Option.map_eq_some_iff,
      Prod.mk.injEq, Bool.false_eq_true, false_and, and_false, exists_false] at h
  | some text =>
    simp only [hcached] at h
    by_cases htext : text = ""
    · simp only [htext, ↓reduceIte, Option.filter_none, Except.ok.injEq, Option.map_eq_some_iff,
        Prod.mk.injEq, Bool.false_eq_true, false_and, and_false, exists_false] at h
    · simp only [if_neg htext] at h
      unfold JsValue.parse at h
      cases hj : Json.parse text with
      | none => simp [hj] at h
      | some j =>
        simp only [hj, Option.map_some] at h
        cases hv : (some (ofJson j)).filter fun v => truthy (some v) with
        | none => simp [hv] at h
        | some v =>
          simp only [hv, Except.ok.injEq, Option.some.injEq, Prod.mk.injEq, true_and] at h
          obtain ⟨hsome, -⟩ := Option.filter_eq_some_iff.mp hv
          rw [Option.some.injEq] at hsome
          subst hsome h
          cases j with
          | obj jms => exact ⟨text, jms, rfl, hj, rfl⟩
          | _ => exact absurd rfl hk

theorem found_stored {s : Store} {id : ObjectId} {f : Properties}
    (h : s.found id = .ok (some (false, f))) :
    ∃ d, s.submission id = some d ∧ f = d.properties ∧
      ∀ s' : Store, s'.cache = s.cache →
        s'.found id = .ok ((s'.submission id).map fun d => (false, d.properties)) := by
  have hcached : ∀ s' : Store, s'.cache = s.cache →
      s'.cached (cacheKey id) = s.cached (cacheKey id) := by
    intro s' hs'
    unfold Store.cached
    rw [hs']
  unfold Store.found at h ⊢
  cases hentry : parsedEntry (s.cached (cacheKey id)) with
  | error e => simp [hentry] at h
  | ok cached =>
    cases hv : cached.filter fun v => truthy (some v) with
    | some v => simp [hentry, hv] at h
    | none =>
      simp only [hentry, hv, Except.ok.injEq, Option.map_eq_some_iff, Prod.mk.injEq, true_and] at h
      obtain ⟨d, hd, rfl⟩ := h
      refine ⟨d, hd, rfl, fun s' hs' => ?_⟩
      rw [hcached s' hs', hentry]
      simp only [hv]

/-- The property of a submission that one of its results is kept in. -/
def resultNames : List String := ["output", "testResult"]

/-- A result, as the value that is stored under its name. -/
def resultOf (k : String) (v : Option JsValue) : Option JsValue :=
  if k = "output" then parseOutputJSON v else v

theorem resultOf_output (v : Option JsValue) : resultOf "output" v = parseOutputJSON v := rfl

theorem resultOf_testResult (v : Option JsValue) : resultOf "testResult" v = v := rfl

/-- A submission with one of its results changed. -/
theorem exists_alikeSubmission {hidden : HiddenTests} {d : Submission} {k : String}
    (hk : k ∈ resultNames) {v : JsValue} (htext : k = "output" → ∃ t, v = str t)
    (halike : AlikeProperties (hidden.of (d.properties "problemId")) d.properties
      (Function.update d.properties k (some v))) :
    ∃ d', d'.id = d.id ∧ AlikeSubmission hidden d d' ∧
      d'.properties = Function.update d.properties k (some v) := by
  rw [properties_problemId] at halike
  rcases List.mem_pair.mp hk with rfl | rfl
  · obtain ⟨t, rfl⟩ := htext rfl
    refine ⟨{ d with output := some t }, rfl, ⟨rfl, ?_, Or.inl rfl⟩, ?_⟩
    · have hout := halike.output
      rw [Function.update_self, properties_output] at hout
      exact hout
    · rw [show ({ d with output := some t } : Submission) =
        { d with output := some t, testResult := d.testResult } from rfl, properties_with]
      exact Function.update_eq_self_iff.mpr (by
        rw [Function.update_of_ne (by decide), properties_testResult])
  · refine ⟨{ d with testResult := some v }, rfl, ⟨rfl, Or.inl rfl, ?_⟩, ?_⟩
    · have hres := halike.testResult
      rw [Function.update_self, properties_testResult] at hres
      exact hres
    · rw [show ({ d with testResult := some v } : Submission) =
        { d with output := d.output, testResult := some v } from rfl, properties_with]
      refine congrArg (fun f : Properties => Function.update f "testResult" (some v)) ?_
      exact Function.update_eq_self_iff.mpr (properties_output d).symm

/-- **A changed result is that of an alike state.** -/
theorem exists_alike_found {hidden : HiddenTests} {s : Store} {id : ObjectId} {cached : Bool}
    {f : Properties} (h : s.found id = .ok (some (cached, f))) {k : String} (hk : k ∈ resultNames)
    (hsome : f k ≠ none) {v : JsValue} (htext : k = "output" → ∃ t, v = str t)
    (hmade : cached = true → ∃ j, ofJson j = v)
    (halike : AlikeProperties (hidden.of (f "problemId")) f (Function.update f k (some v))) :
    ∃ s', Alike hidden s s' ∧ s'.problems = s.problems ∧
      s'.found id = .ok (some (cached, Function.update f k (some v))) := by
  cases cached with
  | true =>
    obtain ⟨text, jms, hcached, hparse, hf⟩ := found_cached h hsome
    obtain ⟨j, hj⟩ := hmade rfl
    obtain ⟨text', hparse'⟩ : ∃ text', JsValue.parse text' =
        some (obj (setMember (ofMembers jms []) k (some v))) := by
      refine ⟨String.ofList (Json.print Json.jsEscape (.obj (jms ++ [(k, j)]))), ?_⟩
      unfold JsValue.parse
      rw [Json.parse_print, Option.map_some]
      show some (obj (ofMembers (jms ++ [(k, j)]) [])) = _
      rw [ofMembers_append]
      show some (obj (setMember _ k (some (ofJson j)))) = _
      rw [hj]
    have hlookup : lookup (setMember (ofMembers jms []) k (some v)) =
        Function.update f k (some v) := by
      funext i
      rw [lookup_setMember, hf, Function.update_apply]
    refine ⟨withEntry s (cacheKey id) text text', ⟨rfl, alikeProblems_refl _,
      List.forall₂_same.mpr fun d _ => alikeSubmission_refl hidden d,
      forall₂_map_self fun e _ => ?_⟩, rfl, ?_⟩
    · split
      · rename_i he
        subst he
        refine ⟨rfl, Or.inr ⟨ofMembers jms [], _, ?_, hparse', ?_⟩⟩
        · unfold JsValue.parse
          rw [hparse]
          rfl
        · rw [hlookup, ← hf]
          exact halike
      · exact ⟨rfl, Or.inl rfl⟩
    · have hne : text' ≠ "" := by
        rintro rfl
        have hnone : JsValue.parse "" = none := by decide +kernel
        exact absurd (hnone.symm.trans hparse') (by simp)
      simp only [Store.found, cached_withEntry hcached, parsedEntry, if_neg hne, hparse', ← hlookup]
      rfl
  | false =>
    obtain ⟨d, hd, rfl, hfound⟩ := found_stored h
    obtain ⟨d', hid, hd', hproperties⟩ := exists_alikeSubmission hk htext halike
    refine ⟨withSubmission s d d', alike_withSubmission hd' s, rfl, ?_⟩
    rw [hfound (withSubmission s d d') rfl, submission_withSubmission hd hid, ← hproperties]
    rfl

/-! ## Uncovered reads tell -/

theorem exists_of_not_masked {h : ℤ → Prop} {tcs : List TestCase} {ds : List JsValue}
    (hnot : ¬Masked h tcs 0 ds) : ∃ i detail, ds[i]? = some (obj detail) ∧
      h (testIndex detail i) ∧ isHidden tcs detail i = false := by
  unfold Masked at hnot
  push Not at hnot
  obtain ⟨i, detail, hi, hh, hhidden⟩ := hnot
  rw [Nat.zero_add] at hh hhidden
  exact ⟨i, detail, hi, hh, by simpa using hhidden⟩

/-- A text that stands for a value. -/
theorem exists_parse_eq (j : Json) : ∃ text, JsValue.parse text = some (ofJson j) := by
  refine ⟨String.ofList (Json.print Json.jsEscape j), ?_⟩
  unfold JsValue.parse
  rw [Json.parse_print]
  rfl

theorem alikeValue_reveal {h : ℤ → Prop} {ms : Members} {ds : List JsValue} {i : ℕ}
    {detail : Members} (hds : detailsOf (some (obj ms)) = some (ms, ds))
    (hi : ds[i]? = some (obj detail)) (hh : h (testIndex detail i)) {b : Bool}
    (hne : ds ≠ ds.set i (reveal detail b)) :
    AlikeValue h (obj ms) (withDetails ms (ds.set i (reveal detail b))) :=
  .intro hds hne (alikeDetails_set hi (by rwa [Nat.zero_add]) b)

/-- A value that differs, for one of the two changes. -/
theorem exists_reveal_ne {ds : List JsValue} {i : ℕ} {detail : Members}
    (hi : ds[i]? = some (obj detail)) : ∃ b, ds ≠ ds.set i (reveal detail b) := by
  by_contra hnot
  push Not at hnot
  exact set_reveal_ne hi ((hnot true).symm.trans (hnot false))

/-- **A detail of a hidden test can be changed** where it is stored: `w` is what is
stored then, in a cache as well if the old value was. -/
theorem exists_reveal {h : ℤ → Prop} {f : Properties} {k : String} (hk : k ∈ resultNames)
    {ms : Members} {ds : List JsValue} {i : ℕ} {detail : Members}
    (hvalue : resultOf k (f k) = some (obj ms))
    (hds : detailsOf (some (obj ms)) = some (ms, ds)) (hi : ds[i]? = some (obj detail))
    (hh : h (testIndex detail i)) {b : Bool} (hne : ds ≠ ds.set i (reveal detail b)) :
    ∃ w, resultOf k (some w) = some (withDetails ms (ds.set i (reveal detail b))) ∧
      (k = "output" → ∃ t, w = str t) ∧
      ((∀ v, f k = some v → ∃ j, ofJson j = v) → ∃ j, ofJson j = w) ∧
      AlikeProperties h f (Function.update f k (some w)) := by
  have halike := alikeValue_reveal (h := h) hds hi hh hne
  rcases List.mem_pair.mp hk with rfl | rfl
  · rw [resultOf_output] at hvalue
    cases ho : f "output" with
    | none => simp [ho, parseOutputJSON] at hvalue
    | some o =>
      cases o with
      | str t =>
        rw [ho] at hvalue
        have hparse : JsValue.parse t = some (obj ms) := hvalue
        have hmade := hparse
        unfold JsValue.parse at hmade
        obtain ⟨j, -, hj⟩ := Option.map_eq_some_iff.mp hmade
        obtain ⟨j', hj'⟩ := exists_ofJson_reveal hj hds hi b
        obtain ⟨t', ht'⟩ := exists_parse_eq j'
        rw [hj'] at ht'
        exact ⟨str t', ht', fun _ => ⟨t', rfl⟩, fun _ => ⟨.str t', rfl⟩,
          fun i ho _ => Function.update_of_ne ho _ _,
          Or.inr ⟨t, t', _, _, ho, Function.update_self _ _ _, hparse, ht', halike⟩,
          Or.inl (Function.update_of_ne (by decide) _ _).symm⟩
      | _ => simp [ho, parseOutputJSON] at hvalue
  · rw [resultOf_testResult] at hvalue
    refine ⟨withDetails ms (ds.set i (reveal detail b)), rfl, fun h => absurd h (by decide),
      fun hmade => ?_, fun i _ hr => Function.update_of_ne hr _ _,
      Or.inl (Function.update_of_ne (by decide) _ _).symm,
      Or.inr ⟨_, _, hvalue, Function.update_self _ _ _, halike⟩⟩
    obtain ⟨j, hj⟩ := hmade _ hvalue
    exact exists_ofJson_reveal hj hds hi b

/-- The results in which details are stored. -/
theorem exists_result_of_mem {f : Properties} {ds : List JsValue} (h : ds ∈ storedDetails f) :
    ∃ k ∈ resultNames, ∃ ms, resultOf k (f k) = some (obj ms) ∧
      detailsOf (some (obj ms)) = some (ms, ds) := by
  rcases mem_storedDetails.mp h with ⟨ms, hms⟩ | ⟨ms, hms⟩
  · refine ⟨"output", by decide, ms, (detailsOf_eq_some hms).1, ?_⟩
    rwa [(detailsOf_eq_some hms).1] at hms
  · refine ⟨"testResult", by decide, ms, (detailsOf_eq_some hms).1, ?_⟩
    rwa [(detailsOf_eq_some hms).1] at hms

/-- A changed result is another one. -/
theorem ds_eq_of_withDetails_eq {ms : Members} {ds ds' : List JsValue}
    (hds : detailsOf (some (obj ms)) = some (ms, ds)) (h : obj ms = withDetails ms ds') :
    ds = ds' := by
  rw [h, detailsOf_withDetails] at hds
  exact (Prod.mk.inj (Option.some.inj hds)).2.symm

/-! ### By identifier -/

/-- How a result is written into the answer. -/
def writeOf (k : String) (v : JsValue) : JsValue := if k = "output" then str (stringify v) else v

theorem sanitize_result {f g : Properties} {p : Problem}
    (h : sanitizeSubmissionForStudent f (some p) = some g) {k : String} (hk : k ∈ resultNames) :
    sanitizeWithin p.testCases (truthy (f "assessmentId")) (resultOf k (f k)) (writeOf k) (f k) =
      some (g k) := by
  unfold sanitizeSubmissionForStudent at h
  obtain ⟨o, ho, h⟩ := Option.bind_eq_some_iff.mp h
  obtain ⟨r, hr, h⟩ := Option.bind_eq_some_iff.mp h
  cases h
  rcases List.mem_pair.mp hk with rfl | rfl
  · rw [Function.update_of_ne (by decide), Function.update_self]
    exact ho
  · rw [Function.update_self]
    exact hr

theorem writeOf_toJson {k : String} {v w : JsValue} (h : writeOf k v = writeOf k w) :
    v.toJson = w.toJson := by
  unfold writeOf at h
  split at h
  · exact toJson_of_stringify (JsValue.str.inj h)
  · rw [h]

section ById

variable {hidden : HiddenTests} {s : Store} {id : ObjectId} {userId collegeId : Option ObjectId}
  {cached : Bool} {f : Properties} (hfound : s.found id = .ok (some (cached, f)))
  (haccess : canAccessSubmission f ⟨userId, .student, collegeId⟩ = true)

include haccess

/-- The answer where the same submission is found with other results. -/
theorem answer_of_found {s' : Store} {f' : Properties} (hproblems : s'.problems = s.problems)
    (hrest : ∀ k, k ∉ resultNames → f' k = f k) (hfound : s'.found id = .ok (some (cached, f'))) :
    (StudentRead.byId id userId collegeId).answer s' =
      (shown ⟨userId, .student, collegeId⟩ (s.problemOf (f "problemId")) cached f').map
        StudentResponse.submission := by
  have hproblem : s'.problemOf ( f' "problemId") = s.problemOf (f "problemId") := by
    rw [hrest "problemId" (by decide)]
    unfold Store.problemOf Store.problem
    rw [hproblems]
  have haccess' : canAccessSubmission f' ⟨userId, .student, collegeId⟩ = true := by
    rw [canAccessSubmission_congr (hrest "userId" (by decide)) (hrest "collegeId" (by decide))]
    exact haccess
  rw [answer_byId]
  unfold Store.read
  simp only [hfound, haccess', ↓reduceIte, hproblem]

include hfound

/-- The alike state in which a detail has another output. -/
theorem exists_answer_reveal {k : String} (hk : k ∈ resultNames) {ms : Members}
    {ds : List JsValue} {i : ℕ} {detail : Members} (hvalue : resultOf k (f k) = some (obj ms))
    (hds : detailsOf (some (obj ms)) = some (ms, ds)) (hi : ds[i]? = some (obj detail))
    (hh : hidden.of (f "problemId") (testIndex detail i)) {b : Bool}
    (hne : ds ≠ ds.set i (reveal detail b)) :
    ∃ s' w, Alike hidden s s' ∧
      resultOf k (some w) = some (withDetails ms (ds.set i (reveal detail b))) ∧
      (StudentRead.byId id userId collegeId).answer s' =
        (shown ⟨userId, .student, collegeId⟩ (s.problemOf (f "problemId")) cached
          (Function.update f k (some w))).map StudentResponse.submission := by
  obtain ⟨w, hw, htext, hmade, halike⟩ := exists_reveal hk hvalue hds hi hh hne
  have hsome : f k ≠ none := by
    intro hnone
    rw [hnone] at hvalue
    rcases List.mem_pair.mp hk with rfl | rfl
    · simp [resultOf_output, parseOutputJSON] at hvalue
    · simp [resultOf_testResult] at hvalue
  have hjson : cached = true → ∃ j, ofJson j = w := by
    rintro rfl
    obtain ⟨text, jms, -, -, hf⟩ := found_cached hfound hsome
    refine hmade fun v hv => ?_
    rw [hf] at hv
    obtain ⟨j, -, hj⟩ := (mem_of_lookup_ofMembers hv).resolve_right (by simp)
    exact ⟨j, hj⟩
  obtain ⟨s', hs', hproblems, hfound'⟩ := exists_alike_found hfound hk hsome htext hjson halike
  refine ⟨s', w, hs', hw, answer_of_found haccess hproblems (fun i hi => ?_) hfound'⟩
  exact Function.update_of_ne (fun h => hi (by rwa [h])) _ _

/-- **A read by identifier that tells nothing is covered.** -/
theorem covered_byId
    (hall : ∀ s', Alike hidden s s' → (StudentRead.byId id userId collegeId).answer s' =
      (StudentRead.byId id userId collegeId).answer s) :
    Covered (hidden.of (f "problemId")) (s.problemOf (f "problemId")) f := by
  have hanswer := answer_of_found haccess rfl (fun _ _ => rfl) hfound
  cases hp : s.problemOf (f "problemId") with
  | none =>
    intro ds hmem
    by_contra hnot
    obtain ⟨i, detail, hi, hh, -⟩ := exists_of_not_masked hnot
    obtain ⟨k, hk, ms, hvalue, hds⟩ := exists_result_of_mem hmem
    obtain ⟨b, hne⟩ := exists_reveal_ne hi
    obtain ⟨s', w, hs', hw, hs'answer⟩ :=
      exists_answer_reveal hfound haccess hk hvalue hds hi hh hne
    have heq := (hs'answer.symm.trans (hall s' hs')).trans hanswer
    rw [hp] at heq
    have hf : Function.update f k (some w) = f :=
      (SubmissionRead.found.inj (StudentResponse.submission.inj (Except.ok.inj heq))).2
    have hfk : f k = some w := by rw [← hf, Function.update_self]
    rw [hfk, hw, Option.some.injEq] at hvalue
    exact hne (ds_eq_of_withDetails_eq hds hvalue.symm)
  | some p =>
    by_contra hnot
    unfold Covered at hnot
    push Not at hnot
    obtain ⟨hnull, ds, hmem, hmasked⟩ := hnot
    obtain ⟨i, detail, hi, hh, hshown⟩ := exists_of_not_masked hmasked
    obtain ⟨k, hk, ms, hvalue, hds⟩ := exists_result_of_mem hmem
    obtain ⟨g, hg⟩ : ∃ g, sanitizeSubmissionForStudent f (some p) = some g := by
      refine Option.ne_none_iff_exists'.mp fun hnone => ?_
      obtain ⟨ds', hmem', hnull'⟩ := sanitizeSubmissionForStudent_eq_none.mp hnone
      exact hnull ds' hmem' hnull'
    have hwritten := sanitize_result hg hk
    rw [hvalue] at hwritten
    have hboth : ∀ b, sanitizeWithin p.testCases (truthy (f "assessmentId"))
        (some (withDetails ms (ds.set i (reveal detail b)))) (writeOf k) none = some (g k) := by
      intro b
      by_cases hne : ds = ds.set i (reveal detail b)
      · rw [← hne, ← sanitizeWithin_withDetails hds rfl (writeOf k) (f k) none]
        exact hwritten
      obtain ⟨s', w, hs', hw, hs'answer⟩ :=
        exists_answer_reveal hfound haccess hk hvalue hds hi hh hne
      have heq := (hs'answer.symm.trans (hall s' hs')).trans hanswer
      rw [hp, shown_student, shown_student, hg] at heq
      cases hg' : sanitizeSubmissionForStudent (Function.update f k (some w)) (some p) with
      | none => simp [hg', Except.map] at heq
      | some g' =>
        rw [hg'] at heq
        have hgg : g' = g :=
          (SubmissionRead.found.inj (StudentResponse.submission.inj (Except.ok.inj heq))).2
        have hwritten' := sanitize_result hg' hk
        have hassessment : Function.update f k (some w) "assessmentId" = f "assessmentId" :=
          Function.update_of_ne (fun h => absurd (h ▸ hk) (by decide)) _ _
        rw [Function.update_self, hw, hassessment, hgg] at hwritten'
        rw [sanitizeWithin_of_withDetails] at hwritten' ⊢
        exact hwritten'
    exact sanitizeWithin_reveal_ne hi hshown (hnull ds hmem) (fun _ _ => writeOf_toJson) none
      ((hboth true).trans (hboth false).symm)

end ById

/-! ### The list -/

theorem myPage_withSubmission {s : Store} {d d' : Submission} (huser : d'.userId = d.userId)
    (userId : ObjectId) (page limit : ℤ) :
    ∃ change : Submission → Submission, change d = d' ∧
      (withSubmission s d d').myPage userId page limit =
        (s.myPage userId page limit).map change := by
  classical
  refine ⟨fun e => if e = d then d' else e, if_pos rfl, ?_⟩
  have hpred : ((fun e : Submission => decide (e.userId = userId)) ∘
      fun e => if e = d then d' else e) = fun e => decide (e.userId = userId) := by
    funext e
    show decide ((if e = d then d' else e).userId = userId) = _
    split
    · rename_i he
      rw [huser, he]
    · rfl
  unfold Store.myPage
  rw [List.map_take, List.map_drop]
  congr 2
  rw [← hpred, ← List.filter_map, List.map_reverse]
  unfold withSubmission
  congr

theorem lookup_listedSubmission (d : Submission) (problem : Option Problem) :
    ∃ ms, listedSubmission d problem = obj ms ∧ lookup ms "output" = d.properties "output" ∧
      lookup ms "testResult" = d.properties "testResult" := by
  refine ⟨_, rfl, ?_, ?_⟩
  · simp [lookup_append, lookup_cons, lookup_optional]
  · simp [lookup_append, lookup_cons, lookup_optional]

/-- **A list that tells nothing is covered.** -/
theorem covered_mine {hidden : HiddenTests} {s : Store} {userId : ObjectId} {page limit : ℤ}
    (hall : ∀ s', Alike hidden s s' → (StudentRead.mine userId page limit).answer s' =
      (StudentRead.mine userId page limit).answer s) {d : Submission}
    (hd : d ∈ s.myPage userId page limit) :
    Covered (hidden d.problemId) none d.properties := by
  intro ds hmem
  by_contra hnot
  obtain ⟨i, detail, hi, hh, -⟩ := exists_of_not_masked hnot
  obtain ⟨k, hk, ms, hvalue, hds⟩ := exists_result_of_mem hmem
  obtain ⟨b, hne⟩ := exists_reveal_ne hi
  obtain ⟨w, hw, htext, -, halike⟩ := exists_reveal hk hvalue hds hi hh hne
  obtain ⟨d', hid, hd', hproperties⟩ := @exists_alikeSubmission hidden _ _ hk _ htext
    (by rw [properties_problemId]; exact halike)
  have hrest := hd'.rest
  obtain ⟨change, hchange, hpage⟩ := myPage_withSubmission (s := s)
    (show d'.userId = d.userId by rw [hrest]) userId page limit
  have heq := hall _ (alike_withSubmission hd' s)
  rw [answer_mine, answer_mine, hpage, List.map_map] at heq
  have hrows := StudentResponse.list.inj (Except.ok.inj heq)
  have hrow := List.map_inj_left.mp hrows d hd
  simp only [Function.comp_apply, hchange] at hrow
  obtain ⟨ms₁, hms₁, hout₁, hres₁⟩ :=
    lookup_listedSubmission d' ((withSubmission s d d').problem d'.problemId)
  obtain ⟨ms₂, hms₂, hout₂, hres₂⟩ := lookup_listedSubmission d (s.problem d.problemId)
  rw [hms₁, hms₂, JsValue.obj.injEq] at hrow
  have hsame : d'.properties k = d.properties k := by
    rcases List.mem_pair.mp hk with rfl | rfl
    · rw [← hout₁, ← hout₂, hrow]
    · rw [← hres₁, ← hres₂, hrow]
  rw [hproperties, Function.update_self] at hsame
  rw [← hsame, hw, Option.some.injEq] at hvalue
  exact hne (ds_eq_of_withDetails_eq hds hvalue.symm)

/-- **A student's read tells nothing about hidden tests if and only if it is covered.** -/
theorem read_eq_iff (hidden : HiddenTests) (s : Store) (r : StudentRead) :
    (∀ s', Alike hidden s s' → r.answer s' = r.answer s) ↔ r.Covered hidden s := by
  constructor
  · intro hall
    cases r with
    | byId id userId collegeId =>
      exact fun cached f hfound haccess => covered_byId hfound haccess hall
    | mine userId page limit => exact fun d hd => covered_mine hall hd
  · exact fun hcovered s' h => h.answer_eq hcovered

/-- A judged submission to a problem whose only test is hidden. -/
def judgedSubmission (output : Bool) : Submission where
  id := "submission"
  problemId := "problem"
  userId := "alice"
  assessmentId := none
  attemptId := none
  collegeId := none
  score := .zero
  code := "code"
  language := "python"
  status := .success
  output := none
  testResult := some (obj [("details", arr [obj [("test", num (.ofInt 1)), ("passed", bool true),
    ("output", bool output)]])])
  externalStudentId := none
  externalAssessmentId := none

def judgedProblem : Problem where
  id := "problem"
  title := "Parity"
  problemType := none
  functionName := some "isOdd"
  compareConfig := none
  testCases := [⟨arr [num .zero], bool true, some false, some true⟩]
  isPremium := false

def judgedStore (problems : List Problem) (output : Bool) : Store where
  clock := .zero
  students := []
  assessments := []
  attempts := []
  problems := problems
  counts := []
  submissions := [judgedSubmission output]
  usageEvents := []
  cache := []
  queue := []

def hiddenFirst : HiddenTests := fun id i => id = "problem" ∧ i = 0

theorem alike_judgedStore (problems : List Problem) :
    Alike hiddenFirst (judgedStore problems true) (judgedStore problems false) := by
  have hindex : testIndex [("test", num (.ofInt 1)), ("passed", bool true), ("output", bool true)] 0
      = 0 := by decide +kernel
  have hdetails : AlikeDetails (hiddenFirst "problem") 0
      [obj [("test", num (.ofInt 1)), ("passed", bool true), ("output", bool true)]]
      [obj [("test", num (.ofInt 1)), ("passed", bool true), ("output", bool false)]] :=
    .hidden ⟨rfl, hindex⟩ rfl .nil
  refine ⟨rfl, alikeProblems_refl _, .cons ⟨rfl, Or.inl rfl, Or.inr ⟨_, _, rfl, rfl, ?_⟩⟩ .nil, .nil⟩
  exact AlikeValue.intro rfl (by simp) hdetails

/-- The texts of a student's list. -/
def listTexts : Except ServiceError StudentResponse → List String
  | .ok (.list rows) => rows.map stringify
  | _ => []

/-- The text of the test result that a student is shown. -/
def resultText : Except ServiceError StudentResponse → Option String
  | .ok (.submission (.found _ f)) => (f "testResult").map stringify
  | _ => none

/-- The list of a student's submissions shows the output of a hidden test, and so does
a single one when the problem was deleted. -/
theorem read_eq_fails :
    (Alike hiddenFirst (judgedStore [judgedProblem] true) (judgedStore [judgedProblem] false) ∧
      (StudentRead.mine "alice" 1 50).answer (judgedStore [judgedProblem] true) ≠
        (StudentRead.mine "alice" 1 50).answer (judgedStore [judgedProblem] false)) ∧
    Alike hiddenFirst (judgedStore [] true) (judgedStore [] false) ∧
      (StudentRead.byId "submission" (some "alice") none).answer (judgedStore [] true) ≠
        (StudentRead.byId "submission" (some "alice") none).answer (judgedStore [] false) := by
  refine ⟨⟨alike_judgedStore _, fun h => ?_⟩, alike_judgedStore _, fun h => ?_⟩
  · exact absurd (congrArg listTexts h) (by decide +kernel)
  · exact absurd (congrArg resultText h) (by decide +kernel)

end Api
