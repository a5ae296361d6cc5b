/-
# What the operations ask for

Each operation looks an attempt up before it updates it, in the scope of the user's college or
with a check of the owner; the update that follows names the attempt by its identifier alone.

* `Asks` : what each operation may ask for, given what it has seen.
* `program_obeys` : every call keeps to it, and shows no more than it may.
* `lasting` : what a call has seen of an owner and a college stays true.
-/
import JudgePlatform.Api.Proctoring
import JudgePlatform.Library.Knowledge

namespace Proctoring

open Api (ObjectId Date User Role Attempt AttemptUpdate Assessment Submission FoundAttempt
  TimelineEvent ServiceError collegeScopeFor inScope findDoc updateDoc)

/-! ## Whose an attempt is -/

/-- The user that an operation acts for. -/
def Operation.callerId : Operation → Option ObjectId
  | .attempt (.submitSolution x) => some x.userId
  | op => op.user.map User.id

/-- The attempt that an operation may change. -/
def Operation.attemptId : Operation → Option ObjectId
  | .attempt (.submitAssessment id _) => some id
  | .attempt (.getAssessmentAttemptById id _) => some id
  | .attempt (.addGraceTime id _ _) => some id
  | .attempt (.raiseChallenge id _ _) => some id
  | .attempt (.resolveChallenge id _ _ _) => some id
  | .attempt (.submitSolution x) => x.attemptId
  | .logAntiCheatingEvent id _ _ => some id
  | .saveDraft id _ _ => some id
  | _ => none

/-- The attempt is the caller's own. -/
def Operation.Owns (op : Operation) (a : Attempt) : Prop := op.callerId = some a.studentId

/-- The attempt is of the caller's college, or the caller looks across colleges. -/
def Operation.Scopes (op : Operation) (a : Attempt) : Prop :=
  ∃ user, op.user = some user ∧ inScope (collegeScopeFor user) a.collegeId = true

def Operation.IsStaff (op : Operation) : Prop :=
  ∃ user, op.user = some user ∧ user.role ≠ .student

/-- What the caller may be shown, and may change in any way. -/
def Operation.MayOpen (op : Operation) (a : Attempt) : Prop :=
  op.Owns a ∨ op.Scopes a ∧ op.IsStaff

/-- The attempts agree on their owner and their college. -/
structure SameOwner (a b : Attempt) : Prop where
  studentId : a.studentId = b.studentId
  collegeId : a.collegeId = b.collegeId

namespace SameOwner

variable {a b c : Attempt} {op : Operation}

theorem refl (a : Attempt) : SameOwner a a := ⟨rfl, rfl⟩

theorem symm (h : SameOwner a b) : SameOwner b a := ⟨h.studentId.symm, h.collegeId.symm⟩

theorem trans (h : SameOwner a b) (h' : SameOwner b c) : SameOwner a c :=
  ⟨h.studentId.trans h'.studentId, h.collegeId.trans h'.collegeId⟩

theorem owns_iff (h : SameOwner a b) : op.Owns a ↔ op.Owns b := by
  unfold Operation.Owns
  rw [h.studentId]

theorem scopes_iff (h : SameOwner a b) : op.Scopes a ↔ op.Scopes b := by
  unfold Operation.Scopes
  rw [h.collegeId]

theorem mayOpen_iff (h : SameOwner a b) : op.MayOpen a ↔ op.MayOpen b := by
  unfold Operation.MayOpen
  rw [h.owns_iff, h.scopes_iff]

end SameOwner

/-! ## What an operation may ask for -/

/-- What is done to an attempt in passing: its score is counted again, or its time runs out. -/
def Housekeeping (u : AttemptUpdate) : Prop :=
  (∃ total, u = Api.setScore total) ∨ ∃ t, u = Api.timeOut t

/-- The events that an operation leaves in a timeline. -/
def Operation.Signs : Operation → TimelineEvent → Prop
  | .attempt (.submitAssessment _ _), .submit _ => True
  | .attempt (.submitAssessment _ _), .timedOut _ => True
  | .attempt (.addGraceTime _ minutes _), .graceTimeAdded _ added _ => added = minutes
  | .attempt (.raiseChallenge _ reason _), .challengeRaised _ reason' => reason' = reason
  | .attempt (.resolveChallenge _ status comment _), .challengeResolved _ decision comment' =>
    Api.challengeDecision status = some decision ∧ comment' = comment
  | .attempt (.submitSolution x), .submitProblem _ problemId _ _ => problemId = x.problemId
  | _, _ => False

section Seen

variable (op : Operation) (v : View) (id : ObjectId)

/-- The call has seen that the attempt is the caller's. -/
def SeenOwn : Prop :=
  ∃ scope f uid, op.callerId = some uid ∧ f.student = some uid ∧ .found id scope f ∈ v

/-- The call has looked the attempt up in the caller's scope. -/
def SeenInScope : Prop :=
  ∃ user f, op.user = some user ∧ .found id (collegeScopeFor user) f ∈ v

/-- The call has seen that the attempt is the caller's to open. -/
def Cleared : Prop := SeenOwn op v id ∨ SeenInScope op v id ∧ op.IsStaff

/-- What an update of an attempt keeps to. -/
structure Permits (u : AttemptUpdate) : Prop where
  about : op.attemptId = some id
  cleared : Cleared op v id ∨ SeenInScope op v id ∧ Housekeeping u
  signed : ∀ e, u.push = some e → op.Signs e

/-- **What an operation asks for**, given what it has seen. -/
def Asks : Request → Prop
  | .base (.updateAttempt id u) => Permits op v id u
  | .pushEvent id e _ => SeenOwn op v id ∧
    ∃ eventType user, op = .logAntiCheatingEvent id eventType user ∧ eventOf eventType = some e
  | .setDrafts id codeDrafts => Cleared op v id ∧ ∃ user, op = .saveDraft id codeDrafts user
  | .setLocked _ scope _ =>
    ∃ user, op.user = some user ∧ user.role ≠ .student ∧ scope = collegeScopeFor user
  | _ => True

end Seen

/-- An attempt that an answer showed. -/
def Showed (v : View) (id : ObjectId) (a : Attempt) : Prop :=
  (∃ scope f, Sighting.found id scope f ∈ v ∧ f.doc = a) ∨ .updated id a ∈ v

/-- **What a response shows**, given what the call has seen. -/
def Shows (op : Operation) (v : View) : Response → Prop
  | .attempt (.attempt (some a)) => ∃ id, Showed v id a ∧ Cleared op v id
  | .attempt (.details (some d)) => ∃ id, Showed v id d.attempt.doc ∧ Cleared op v id
  | .watched (some w) => ∃ id, Showed v id w.doc ∧ Cleared op v id
  | .attempts as => ∃ user, op.user = some user ∧ user.role ≠ .student ∧
    .listed (collegeScopeFor user) as ∈ v
  | .submissions ds => ∃ id, .submissions id ds ∈ v ∧ Cleared op v id
  | _ => True

def Ends (op : Operation) (v : View) (x : Except ServiceError Response) : Prop :=
  ∀ response, x = .ok response → Shows op v response

/-! ## More is seen as a call goes on -/

section Grows

variable {op : Operation} {v w : View} {id : ObjectId}

theorem SeenOwn.mono (h : SeenOwn op v id) (hvw : v ⊆ w) : SeenOwn op w id := by
  obtain ⟨scope, f, uid, hcaller, hstudent, hmem⟩ := h
  exact ⟨scope, f, uid, hcaller, hstudent, hvw hmem⟩

theorem SeenInScope.mono (h : SeenInScope op v id) (hvw : v ⊆ w) : SeenInScope op w id := by
  obtain ⟨user, f, huser, hmem⟩ := h
  exact ⟨user, f, huser, hvw hmem⟩

theorem Cleared.mono (h : Cleared op v id) (hvw : v ⊆ w) : Cleared op w id :=
  h.imp (fun hown => hown.mono hvw) fun hscope => ⟨hscope.1.mono hvw, hscope.2⟩

end Grows

/-! ## What is seen stays true -/

/-- What a sighting says of the store. -/
def Sighting.Holds (st : Store) : Sighting → Prop
  | found id scope f => inScope scope f.doc.collegeId = true ∧
    (∀ uid, f.student = some uid → uid = f.doc.studentId) ∧
    ∃ d, st.base.attempt id = some d ∧ SameOwner f.doc d
  | updated id a => ∃ d, st.base.attempt id = some d ∧ SameOwner a d
  | listed scope as => ∀ w ∈ as, inScope scope w.found.doc.collegeId = true
  | submissions attemptId ds => ∀ d ∈ ds, d.attemptId = some attemptId

def Known (v : View) (st : Store) : Prop := ∀ x ∈ v, x.Holds st

/-- An update changes neither the owner nor the college. -/
theorem sameOwner_apply (u : AttemptUpdate) (a : Attempt) : SameOwner a (u.apply a) := ⟨rfl, rfl⟩

section Serve

variable {c : Api.Choice} {st : Store} {id : ObjectId}

theorem carryOut_cases {α : Type} (c : Api.Choice) (st : Store) (done : α × Store) :
    carryOut c st done = (.error .unavailable, st) ∨ carryOut c st done = (.ok done.1, done.2) := by
  unfold carryOut
  split
  · exact .inl rfl
  · exact .inr rfl

theorem base_update (st : Store) (id : ObjectId) (f : Monitor → Monitor) :
    (st.update id f).2.base = st.base := by
  unfold Store.update
  split
  · rfl
  · rfl

theorem attempts_setLocked (st : Store) (id : ObjectId) (scope : Option ObjectId) (locked : Bool) :
    (st.setLocked id scope locked).2.base.attempts = st.base.attempts := by
  unfold Store.setLocked
  split
  · rfl
  · rfl

theorem attempts_carryOut {α : Type} {done : α × Store}
    (h : done.2.base.attempts = st.base.attempts) :
    (carryOut c st done).2.base.attempts = st.base.attempts := by
  rcases carryOut_cases c st done with hcarry | hcarry
  · rw [hcarry]
  · rw [hcarry]
    exact h

/-- What serving a request does to an attempt. -/
theorem attempt_serve (c : Api.Choice) (st : Store) (r : Request) (id : ObjectId) :
    (serve c st r).2.base.attempt id = st.base.attempt id ∨
      ∃ u, r = .base (.updateAttempt id u) ∧
        (serve c st r).2.base.attempt id = (st.base.attempt id).map u.apply := by
  have hsame : (serve c st r).2.base.attempts = st.base.attempts →
      (serve c st r).2.base.attempt id = st.base.attempt id := by
    intro h
    unfold Api.Store.attempt
    rw [h]
  cases r with
  | base r =>
    by_cases hr : ∀ i u, r ≠ .updateAttempt i u
    · exact .inl (hsame (Api.attempts_serve c st.base hr))
    · push Not at hr
      obtain ⟨i, u, rfl⟩ := hr
      show (Api.serve c st.base (.updateAttempt i u)).2.attempt id = _ ∨ ∃ u', _ ∧
        (Api.serve c st.base (.updateAttempt i u)).2.attempt id = _
      rcases Api.serve_updateAttempt c st.base i u with hserve | hserve
      · rw [hserve]
        exact .inl rfl
      · rw [hserve]
        dsimp only
        rw [Api.attempt_updateAttempt]
        by_cases hi : id = i
        · rw [if_pos hi]
          exact .inr ⟨u, by rw [hi], rfl⟩
        · rw [if_neg hi]
          exact .inl rfl
  | findWatched i scope => exact .inl (hsame (attempts_carryOut rfl))
  | listWatched i scope skip limit => exact .inl (hsame (attempts_carryOut rfl))
  | pushEvent i e t => exact .inl (hsame (attempts_carryOut (by rw [base_update])))
  | setDrafts i drafts => exact .inl (hsame (attempts_carryOut (by rw [base_update])))
  | setLocked i scope locked => exact .inl (hsame (attempts_carryOut (attempts_setLocked _ _ _ _)))
  | findSubmissionsOf i skip limit => exact .inl (hsame (attempts_carryOut rfl))

/-- The owner and the college of an attempt stay. -/
theorem owner_serve {d : Attempt} (h : st.base.attempt id = some d) (c : Api.Choice)
    (r : Request) : ∃ d', (serve c st r).2.base.attempt id = some d' ∧ SameOwner d d' := by
  rcases attempt_serve c st r id with hserve | ⟨u, -, hserve⟩
  · exact ⟨d, hserve.trans h, .refl d⟩
  · rw [h] at hserve
    exact ⟨_, hserve, sameOwner_apply u d⟩

theorem Sighting.Holds.serve {x : Sighting} (h : x.Holds st) (c : Api.Choice) (r : Request) :
    x.Holds (serve c st r).2 := by
  have hlater : ∀ {id a}, (∃ d, st.base.attempt id = some d ∧ SameOwner a d) →
      ∃ d, (Proctoring.serve c st r).2.base.attempt id = some d ∧ SameOwner a d := by
    rintro id a ⟨d, hd, hsame⟩
    obtain ⟨d', hd', hsame'⟩ := owner_serve hd c r
    exact ⟨d', hd', hsame.trans hsame'⟩
  cases x with
  | found id scope f => exact ⟨h.1, h.2.1, hlater h.2.2⟩
  | updated id a => exact hlater h
  | listed scope as => exact h
  | submissions id ds => exact h

theorem Known.append {v w : View} (hv : Known v st) (hw : Known w st) : Known (v ++ w) st :=
  fun x hx => (List.mem_append.mp hx).elim (hv x) (hw x)

theorem student_populate (st : Api.Store) (a : Attempt) {uid : ObjectId}
    (h : (st.populateAttempt a).student = some uid) : uid = a.studentId := by
  obtain ⟨student, hfound, rfl⟩ := Option.map_eq_some_iff.mp h
  exact Api.findDoc_key Api.Student.id hfound

/-- A lookup shows the attempt as it is. -/
theorem holds_found {scope : Option ObjectId} {a : Attempt}
    (h : (st.base.attempt id).filter (fun a => inScope scope a.collegeId) = some a) :
    (Sighting.found id scope (st.base.populateAttempt a)).Holds st := by
  obtain ⟨ha, hscope⟩ := Option.filter_eq_some_iff.mp h
  exact ⟨hscope, fun uid huid => student_populate st.base a huid, a, ha, .refl a⟩

theorem holds_update {f : Monitor → Monitor} {w : Watched}
    (h : (st.update id f).1 = some w) : (Sighting.updated id w.doc).Holds (st.update id f).2 := by
  have hbase := base_update st id f
  unfold Store.update at h
  split at h
  · rename_i a ha
    cases h
    exact ⟨a, by rw [hbase]; exact ha, .refl a⟩
  · cases h

theorem of_carryOut {α : Type} {done : α × Store} {x : α}
    (h : (carryOut c st done).1 = .ok x) : x = done.1 ∧ (carryOut c st done).2 = done.2 := by
  rcases carryOut_cases c st done with hcarry | hcarry
  · rw [hcarry] at h
    cases h
  · rw [hcarry] at h ⊢
    exact ⟨(Except.ok.inj h).symm, rfl⟩

theorem serve_of_ok {s : Api.Store} {r : Api.Request} {x : Api.Reply r}
    (h : (Api.serve c s r).1 = .ok x) : Api.serve c s r = Api.answer c s r := by
  unfold Api.serve at h ⊢
  split at h
  · cases h
  · rename_i hserved
    rw [if_neg hserved]

/-- What an answer to an operation on attempts shows is so. -/
theorem holds_sightedBase {r : Api.Request} {x : Api.Reply r}
    (h : (Api.serve c st.base r).1 = .ok x) :
    ∀ y ∈ sightedBase r x, y.Holds (serve c st (.base r)).2 := by
  have hserved := serve_of_ok h
  rw [hserved] at h
  cases r with
  | findAttempt id scope =>
    have hstore : (serve c st (.base (.findAttempt id scope))).2 = st := by
      show { st with base := _ } = st
      rw [hserved]
      rfl
    have hx := Except.ok.inj h
    rw [hstore]
    intro y hy
    cases hfound : (st.base.attempt id).filter fun a => inScope scope a.collegeId with
    | none =>
      rw [hfound] at hx
      subst hx
      exact absurd hy List.not_mem_nil
    | some a =>
      rw [hfound] at hx
      subst hx
      rw [List.mem_singleton.mp hy]
      exact holds_found hfound
  | updateAttempt id u =>
    rcases Api.serve_updateAttempt c st.base id u with hupdate | hupdate
    · rw [← hserved, hupdate] at h
      cases h
    · have hx : (st.base.attempt id).map u.apply = x := by
        rw [← hserved, hupdate] at h
        exact Except.ok.inj h
      have hattempt : (serve c st (.base (.updateAttempt id u))).2.base.attempt id = x := by
        show (Api.serve c st.base (.updateAttempt id u)).2.attempt id = x
        rw [hupdate, ← hx]
        dsimp only
        rw [Api.attempt_updateAttempt, if_pos rfl]
      intro y hy
      cases x with
      | none => exact absurd hy List.not_mem_nil
      | some a =>
        rw [List.mem_singleton.mp hy]
        exact ⟨a, hattempt, .refl a⟩
  | _ =>
    intro y hy
    exact absurd hy List.not_mem_nil

theorem mem_listed {assessmentId : ObjectId} {scope : Option ObjectId} {a : Attempt}
    (h : a ∈ st.listed assessmentId scope) : inScope scope a.collegeId = true := by
  unfold Store.listed at h
  rw [List.mem_mergeSort, List.mem_filter] at h
  exact (of_decide_eq_true h.2).2

/-- What an answer shows is so. -/
theorem holds_sighted {r : Request} {x : Reply r} (h : (serve c st r).1 = .ok x) :
    ∀ y ∈ sighted r x, y.Holds (serve c st r).2 := by
  cases r with
  | base r => exact holds_sightedBase h
  | findWatched id scope =>
    obtain ⟨hx, hstore⟩ := of_carryOut h
    intro y hy
    rw [show (serve c st (.findWatched id scope)).2 = st from hstore]
    cases hfound : (st.base.attempt id).filter fun a => inScope scope a.collegeId with
    | none =>
      rw [hfound] at hx
      subst hx
      exact absurd hy List.not_mem_nil
    | some a =>
      rw [hfound] at hx
      subst hx
      rw [List.mem_singleton.mp hy]
      exact holds_found hfound
  | listWatched id scope skip limit =>
    obtain ⟨rfl, -⟩ := of_carryOut h
    intro y hy
    rw [List.mem_singleton.mp hy]
    intro w hw
    obtain ⟨a, ha, rfl⟩ := List.mem_map.mp hw
    exact mem_listed (List.mem_of_mem_drop (List.mem_of_mem_take ha))
  | pushEvent id e t =>
    obtain ⟨hx, hstore⟩ := of_carryOut h
    intro y hy
    rw [show (serve c st (.pushEvent id e t)).2 = _ from hstore]
    cases x with
    | none => exact absurd hy List.not_mem_nil
    | some w =>
      rw [List.mem_singleton.mp hy]
      exact holds_update hx.symm
  | setDrafts id drafts =>
    obtain ⟨hx, hstore⟩ := of_carryOut h
    intro y hy
    rw [show (serve c st (.setDrafts id drafts)).2 = _ from hstore]
    cases x with
    | none => exact absurd hy List.not_mem_nil
    | some w =>
      rw [List.mem_singleton.mp hy]
      exact holds_update hx.symm
  | setLocked id scope locked =>
    intro y hy
    exact absurd hy List.not_mem_nil
  | findSubmissionsOf id skip limit =>
    obtain ⟨rfl, -⟩ := of_carryOut h
    intro y hy
    rw [List.mem_singleton.mp hy]
    intro d hd
    have hfilter := List.mem_of_mem_drop (List.mem_of_mem_take hd)
    exact of_decide_eq_true (List.mem_filter.mp hfilter).2

/-- **What is seen stays true**, whatever is asked for. -/
theorem lasting : Service.Lasting service Asks Known where
  blank := fun _ _ hx => absurd hx List.not_mem_nil
  heard := by
    intro c st op v r _ hv
    have hkept : Known v (serve c st r).2 := fun x hx => (hv x hx).serve c r
    show Known (service.hear v r (serve c st r).1) (serve c st r).2
    cases hanswer : (serve c st r).1 with
    | error e => exact hkept
    | ok x => exact Known.append hkept (holds_sighted hanswer)
  kept := fun c st _ _ _ r _ _ hw x hx => (hw x hx).serve c r

end Serve

/-! ## The operations on attempts -/

section Parts

variable {look : View → (r : Api.Request) → Api.Reply r → View} {P : View → Api.Request → Prop}
  {v : View} {id : ObjectId}

theorem isAttemptExpired_spec (hread : ∀ w r, (∀ i u, r ≠ .updateAttempt i u) → P w r)
    (attempt : Attempt) (assessment : Assessment) :
    (Api.isAttemptExpired attempt assessment).Obeys look P (fun _ _ => True) v :=
  Program.Obeys.call_bind (hread _ _ (by simp)) (fun _ => trivial) fun _ => trivial

theorem recalculateAttemptScore_spec (hread : ∀ w r, (∀ i u, r ≠ .updateAttempt i u) → P w r)
    (hscore : ∀ w total, P w (.updateAttempt id (Api.setScore total))) :
    (Api.recalculateAttemptScore id).Obeys look P (fun _ _ => True) v := by
  refine Program.Obeys.call_bind (hread _ _ (by simp)) (fun found => ?_) fun _ => trivial
  cases found with
  | none => exact trivial
  | some attempt =>
    refine Program.Obeys.call_bind (hread _ _ (by simp)) (fun assessment => ?_) fun _ => trivial
    cases assessment with
    | none => exact trivial
    | some assessment =>
      refine Program.Obeys.call_bind (hread _ _ (by simp)) (fun submissions => ?_) fun _ => trivial
      refine Api.obeys_demand (fun total _ => ?_) trivial
      split
      · exact trivial
      · exact Program.Obeys.call_bind (hscore _ total) (fun _ => trivial) fun _ => trivial

theorem timeOutExpired_spec (hread : ∀ w r, (∀ i u, r ≠ .updateAttempt i u) → P w r)
    (htimeOut : ∀ w t, P w (.updateAttempt id (Api.timeOut t))) (attempt : Attempt)
    (assessment : Assessment) :
    (Api.timeOutExpired id attempt assessment).Obeys look P (fun _ _ => True) v := by
  unfold Api.timeOutExpired
  split
  · refine Program.Obeys.bind (isAttemptExpired_spec hread _ _) (fun w expired _ => ?_)
      fun _ _ _ => trivial
    cases expired with
    | true => exact Program.Obeys.call_bind (htimeOut _ _) (fun _ => trivial) fun _ => trivial
    | false => exact trivial
  · exact trivial

theorem checkLimits_spec (hread : ∀ w r, (∀ i u, r ≠ .updateAttempt i u) → P w r)
    (x : Api.Solution) : (Api.checkLimits x).Obeys look P (fun _ _ => True) v := by
  refine Program.Obeys.call_bind (hread _ _ (by simp)) (fun (_ : Bool) => ?_) fun _ => trivial
  refine Api.obeys_require (fun _ => ?_) trivial
  cases x.collegeId with
  | none => exact trivial
  | some collegeId =>
    refine Program.Obeys.call_bind (hread _ _ (by simp)) (fun (_ : Bool) => ?_) fun _ => trivial
    refine Api.obeys_require (fun _ => ?_) trivial
    refine Program.Obeys.call_bind (hread _ _ (by simp)) (fun (_ : Bool) => ?_) fun _ => trivial
    unfold Api.require
    split
    · exact trivial
    · exact trivial

theorem checkPremium_spec (hread : ∀ w r, (∀ i u, r ≠ .updateAttempt i u) → P w r)
    (x : Api.Solution) (problem : Api.Problem) :
    (Api.checkPremium x problem).Obeys look P (fun _ _ => True) v := by
  unfold Api.checkPremium
  split
  · refine Program.Obeys.call_bind (hread _ _ (by simp)) (fun (_ : Bool) => ?_) fun _ => trivial
    unfold Api.require
    split
    · exact trivial
    · exact trivial
  · exact trivial

theorem logSubmission_spec (hread : ∀ w r, (∀ i u, r ≠ .updateAttempt i u) → P w r)
    {x : Api.Solution} (hlog : ∀ w i t title d, x.attemptId = some i →
      P w (.updateAttempt i { push := some (.submitProblem t x.problemId title d) }))
    (problem : Api.Problem) (submission : Submission) :
    (Api.logSubmission x problem submission).Obeys look P (fun _ _ => True) v := by
  unfold Api.logSubmission
  cases hx : x.attemptId with
  | none => exact trivial
  | some i =>
    have hbody : Program.Obeys look P (fun _ _ => True) v (do
        let timestamp ← Api.ask .now
        let _ ← Api.ask (.updateAttempt i
          { push := some (.submitProblem timestamp x.problemId problem.title submission.id) })
        pure ()) := by
      refine Program.Obeys.call_bind (hread _ _ (by simp)) (fun t => ?_) fun _ => trivial
      exact Program.Obeys.call_bind (hlog _ i _ _ _ hx) (fun _ => trivial) fun _ => trivial
    exact Program.Obeys.tryCatch hbody (fun _ _ _ => trivial) fun _ _ _ => trivial

end Parts

section Attempts

variable {α : Type} {op : Operation} {v : View} {id : ObjectId}

/-- A program of the operations on attempts keeps to what `op` may ask for. -/
def Keeps (op : Operation) (Q : View → Except ServiceError α → Prop) (v : View)
    (t : Api.Task α) : Prop :=
  t.Obeys lookBase (fun w r => Asks op w (.base r)) Q v

theorem asks_base {r : Api.Request} (hr : ∀ id u, r ≠ .updateAttempt id u) :
    Asks op v (.base r) := by
  cases r with
  | updateAttempt id u => exact absurd rfl (hr id u)
  | _ => exact trivial

theorem Keeps.grows {Q : View → Except ServiceError α → Prop} {t : Api.Task α}
    (h : t.Obeys lookBase (fun w r => v ⊆ w → Asks op w (.base r)) (fun w x => v ⊆ w → Q w x) v) :
    Keeps op Q v t :=
  Program.Obeys.grows List.Subset.refl (fun _ _ _ => List.Subset.trans)
    (fun v _ _ => List.subset_append_left v _) h

/-- The first lookup of an operation; what follows has seen what it found. -/
theorem keeps_open {scope : Option ObjectId} {e : ServiceError} {f : FoundAttempt → Api.Task α}
    {Q : View → Except ServiceError α → Prop} (herror : ∀ w e, Q w (.error e))
    (hf : ∀ attempt, (f attempt).Obeys lookBase
      (fun w r => [.found id scope attempt] ⊆ w → Asks op w (.base r))
      (fun w x => [.found id scope attempt] ⊆ w → Q w x) [.found id scope attempt]) :
    Keeps op Q [] (Api.ask (.findAttempt id scope) >>= fun found => Api.demand found e >>= f) := by
  refine Program.Obeys.call_bind (asks_base (by simp)) (fun found => ?_) fun _ => herror _ _
  cases found with
  | none => exact herror _ _
  | some attempt => exact Keeps.grows (hf attempt)

theorem keeps_submitAssessment (user : User) :
    Keeps (.attempt (.submitAssessment id user))
      (fun w x => ∀ a, x = .ok (some a) → Showed w id a ∧
        Cleared (.attempt (.submitAssessment id user)) w id) []
      (Api.submitAssessment id user) := by
  have herror : ∀ (w : View) (e : ServiceError) (a : Attempt),
      (.error e : Except ServiceError (Option Attempt)) = .ok (some a) → Showed w id a ∧
        Cleared (.attempt (.submitAssessment id user)) w id := fun _ _ _ h => by cases h
  refine keeps_open herror fun attempt => ?_
  refine Program.Obeys.call_bind (fun _ => asks_base (by simp)) (fun _ => ?_) fun _ _ => herror _ _
  refine Api.obeys_demand (fun assessment _ => ?_) fun _ => herror _ _
  refine Api.obeys_demand (fun studentId hstudent => ?_) fun _ => herror _ _
  refine Api.obeys_require (fun hown => ?_) fun _ => herror _ _
  have hcleared : ∀ w : View, [Sighting.found id (collegeScopeFor user) attempt] ⊆ w →
      Cleared (.attempt (.submitAssessment id user)) w id := by
    intro w hw
    have hmem := hw (List.mem_singleton_self _)
    by_cases hrole : user.role = .student
    · exact .inl ⟨_, attempt, user.id, rfl, hown hrole ▸ hstudent, hmem⟩
    · exact .inr ⟨⟨user, attempt, rfl, hmem⟩, user, rfl, hrole⟩
  have hread : ∀ (w : View) (r : Api.Request), (∀ i u, r ≠ .updateAttempt i u) →
      [Sighting.found id (collegeScopeFor user) attempt] ⊆ w →
      Asks (.attempt (.submitAssessment id user)) w (.base r) := fun _ _ hr _ => asks_base hr
  have hscore : ∀ (w : View) total,
      [Sighting.found id (collegeScopeFor user) attempt] ⊆ w →
      Asks (.attempt (.submitAssessment id user)) w
        (.base (.updateAttempt id (Api.setScore total))) := by
    intro w total hw
    exact ⟨rfl, .inl (hcleared w hw), fun e he => by cases he⟩
  split
  · intro hw a ha
    cases ha
    exact ⟨.inl ⟨_, attempt, hw (List.mem_singleton_self _), rfl⟩, hcleared _ hw⟩
  · refine Program.Obeys.bind (isAttemptExpired_spec hread _ _) (fun w expired _ => ?_)
      fun _ _ _ _ => herror _ _
    cases expired with
    | true =>
      refine Program.Obeys.bind (recalculateAttemptScore_spec hread hscore) (fun w _ _ => ?_)
        fun _ _ _ _ => herror _ _
      refine ⟨fun hw => ?_, fun x hw a ha => ?_, fun e _ => herror _ _⟩
      · exact ⟨rfl, .inl (hcleared w hw), fun e he => by cases he; exact trivial⟩
      · cases ha
        exact ⟨.inr (List.mem_append_right _ (List.mem_singleton_self _)), hcleared _ hw⟩
    | false =>
      refine Program.Obeys.bind (recalculateAttemptScore_spec hread hscore) (fun w _ _ => ?_)
        fun _ _ _ _ => herror _ _
      refine Program.Obeys.call_bind (fun _ => asks_base (by simp)) (fun submittedAt => ?_)
        fun _ _ => herror _ _
      refine Program.Obeys.call_bind (fun _ => asks_base (by simp)) (fun timestamp => ?_)
        fun _ _ => herror _ _
      refine Program.Obeys.call_bind (fun hw => ?_) (fun x => ?_) fun _ _ => herror _ _
      · exact ⟨rfl, .inl (hcleared _ hw), fun e he => by cases he; exact trivial⟩
      · refine Api.obeys_demand (fun a hx => ?_) fun _ => herror _ _
        intro hw a' ha
        cases ha
        subst hx
        exact ⟨.inr (List.mem_append_right _ (List.mem_singleton_self _)), hcleared _ hw⟩

theorem keeps_getAssessmentAttemptById (user : User) :
    Keeps (.attempt (.getAssessmentAttemptById id user))
      (fun w x => ∀ d, x = .ok (some d) → Showed w id d.attempt.doc ∧
        Cleared (.attempt (.getAssessmentAttemptById id user)) w id) []
      (Api.getAssessmentAttemptById id user) := by
  have herror : ∀ (w : View) (e : ServiceError) (d : Api.AttemptDetails),
      (.error e : Except ServiceError (Option Api.AttemptDetails)) = .ok (some d) →
        Showed w id d.attempt.doc ∧
          Cleared (.attempt (.getAssessmentAttemptById id user)) w id := fun _ _ _ h => by cases h
  have hnone : ∀ (w : View) (d : Api.AttemptDetails),
      (.ok none : Except ServiceError (Option Api.AttemptDetails)) = .ok (some d) →
        Showed w id d.attempt.doc ∧
          Cleared (.attempt (.getAssessmentAttemptById id user)) w id := fun _ _ h => by cases h
  refine Program.Obeys.call_bind (asks_base (by simp)) (fun found => ?_) fun _ => herror _ _
  cases found with
  | none => exact hnone _
  | some attempt =>
    apply Keeps.grows
    have hscoped : ∀ w : View, [Sighting.found id (collegeScopeFor user) attempt] ⊆ w →
        SeenInScope (.attempt (.getAssessmentAttemptById id user)) w id :=
      fun w hw => ⟨user, attempt, rfl, hw (List.mem_singleton_self _)⟩
    have hread : ∀ (w : View) (r : Api.Request), (∀ i u, r ≠ .updateAttempt i u) →
        [Sighting.found id (collegeScopeFor user) attempt] ⊆ w →
        Asks (.attempt (.getAssessmentAttemptById id user)) w (.base r) :=
      fun _ _ hr _ => asks_base hr
    refine Program.Obeys.call_bind (hread _ _ (by simp)) (fun assessment => ?_)
      fun _ _ => herror _ _
    cases assessment with
    | none => exact fun _ => hnone _
    | some assessment =>
      refine Program.Obeys.bind (timeOutExpired_spec hread (fun w t hw => ?_) _ _)
        (fun w _ _ => ?_) fun _ _ _ _ => herror _ _
      · exact ⟨rfl, .inr ⟨hscoped w hw, .inr ⟨t, rfl⟩⟩, fun e he => by cases he⟩
      refine Program.Obeys.bind (recalculateAttemptScore_spec hread (fun w total hw => ?_))
        (fun w _ _ => ?_) fun _ _ _ _ => herror _ _
      · exact ⟨rfl, .inr ⟨hscoped w hw, .inl ⟨total, rfl⟩⟩, fun e he => by cases he⟩
      refine Program.Obeys.call_bind (hread _ _ (by simp)) (fun final => ?_) fun _ _ => herror _ _
      refine Api.obeys_demand (fun finalAttempt hfinal => ?_) fun _ => herror _ _
      subst hfinal
      refine Api.obeys_demand (fun studentId hstudent => ?_) fun _ => herror _ _
      refine Api.obeys_require (fun hown => ?_) fun _ => herror _ _
      have hdone : ∀ u : View, u = lookBase w (.findAttempt id none) (some finalAttempt) →
          [Sighting.found id (collegeScopeFor user) attempt] ⊆ u →
          Showed u id finalAttempt.doc ∧
            Cleared (.attempt (.getAssessmentAttemptById id user)) u id := by
        rintro u rfl hu
        have hmem : Sighting.found id none finalAttempt ∈
            lookBase w (.findAttempt id none) (some finalAttempt) :=
          List.mem_append_right _ (List.mem_singleton_self _)
        refine ⟨.inl ⟨none, finalAttempt, hmem, rfl⟩, ?_⟩
        by_cases hrole : user.role = .student
        · exact .inl ⟨none, finalAttempt, user.id, rfl, hown hrole ▸ hstudent, hmem⟩
        · exact .inr ⟨hscoped _ hu, user, rfl, hrole⟩
      split
      · intro hu d hd
        cases hd
        exact hdone _ rfl hu
      · refine Api.obeys_demand (fun problems _ => ?_) fun _ => herror _ _
        intro hu d hd
        cases hd
        exact hdone _ rfl hu

/-- The end of an operation that updates an attempt which is its to open. -/
theorem keeps_update {w : View} {u : AttemptUpdate} (hP : v ⊆ w → Permits op w id u)
    (hcleared : ∀ w, v ⊆ w → Cleared op w id) :
    (Api.ask (.updateAttempt id u)).Obeys lookBase (fun w r => v ⊆ w → Asks op w (.base r))
      (fun w x => v ⊆ w → ∀ a, x = .ok (some a) → Showed w id a ∧ Cleared op w id) w := by
  refine ⟨hP, fun x hw a ha => ?_, fun e _ a ha => by cases ha⟩
  cases ha
  exact ⟨.inr (List.mem_append_right _ (List.mem_singleton_self _)), hcleared _ hw⟩

theorem keeps_addGraceTime (minutes : Api.Number) (user : User) :
    Keeps (.attempt (.addGraceTime id minutes user))
      (fun w x => ∀ a, x = .ok (some a) → Showed w id a ∧
        Cleared (.attempt (.addGraceTime id minutes user)) w id) []
      (Api.addGraceTime id minutes user) := by
  refine Api.obeys_require (fun hrole => ?_) fun _ h => by cases h
  refine keeps_open (fun _ _ _ h => by cases h) fun attempt => ?_
  have hcleared : ∀ w : View, [Sighting.found id (collegeScopeFor user) attempt] ⊆ w →
      Cleared (.attempt (.addGraceTime id minutes user)) w id := fun w hw =>
    .inr ⟨⟨user, attempt, rfl, hw (List.mem_singleton_self _)⟩, user, rfl, hrole⟩
  refine Program.Obeys.call_bind (fun _ => asks_base (by simp)) (fun t => ?_)
    fun _ _ _ h => by cases h
  exact keeps_update
    (fun hw => ⟨rfl, .inl (hcleared _ hw), fun e he => by cases he; exact rfl⟩) hcleared

theorem keeps_raiseChallenge (reason : Option String) (user : User) :
    Keeps (.attempt (.raiseChallenge id reason user))
      (fun w x => ∀ a, x = .ok (some a) → Showed w id a ∧
        Cleared (.attempt (.raiseChallenge id reason user)) w id) []
      (Api.raiseChallenge id reason user) := by
  refine keeps_open (fun _ _ _ h => by cases h) fun attempt => ?_
  refine Api.obeys_demand (fun studentId hstudent => ?_) fun _ _ h => by cases h
  refine Api.obeys_require (fun hown => ?_) fun _ _ h => by cases h
  refine Api.obeys_require (fun _ => ?_) fun _ _ h => by cases h
  refine Api.obeys_require (fun _ => ?_) fun _ _ h => by cases h
  have hcleared : ∀ w : View, [Sighting.found id none attempt] ⊆ w →
      Cleared (.attempt (.raiseChallenge id reason user)) w id := fun w hw =>
    .inl ⟨none, attempt, user.id, rfl, hown ▸ hstudent, hw (List.mem_singleton_self _)⟩
  refine Program.Obeys.call_bind (fun _ => asks_base (by simp)) (fun t => ?_)
    fun _ _ _ h => by cases h
  refine Program.Obeys.call_bind (fun _ => asks_base (by simp)) (fun t' => ?_)
    fun _ _ _ h => by cases h
  exact keeps_update
    (fun hw => ⟨rfl, .inl (hcleared _ hw), fun e he => by cases he; exact rfl⟩) hcleared

theorem keeps_resolveChallenge (status : String) (comment : Option String) {user : User}
    (hrole : user.role ≠ .student) :
    Keeps (.attempt (.resolveChallenge id status comment user))
      (fun w x => ∀ a, x = .ok (some a) → Showed w id a ∧
        Cleared (.attempt (.resolveChallenge id status comment user)) w id) []
      (Api.resolveChallenge id status comment user) := by
  refine keeps_open (fun _ _ _ h => by cases h) fun attempt => ?_
  refine Api.obeys_require (fun _ => ?_) fun _ _ h => by cases h
  refine Api.obeys_demand (fun decision hdecision => ?_) fun _ _ h => by cases h
  have hcleared : ∀ w : View, [Sighting.found id (collegeScopeFor user) attempt] ⊆ w →
      Cleared (.attempt (.resolveChallenge id status comment user)) w id := fun w hw =>
    .inr ⟨⟨user, attempt, rfl, hw (List.mem_singleton_self _)⟩, user, rfl, hrole⟩
  refine Program.Obeys.call_bind (fun _ => asks_base (by simp)) (fun t => ?_)
    fun _ _ _ h => by cases h
  refine Program.Obeys.call_bind (fun _ => asks_base (by simp)) (fun t' => ?_)
    fun _ _ _ h => by cases h
  exact keeps_update
    (fun hw => ⟨rfl, .inl (hcleared _ hw), fun e he => by cases he; exact ⟨hdecision, rfl⟩⟩)
    hcleared

/-- A submission to an attempt passes its check only where the attempt is the caller's. -/
theorem keeps_validateAssessmentSubmission (x : Api.Solution) :
    Keeps (.attempt (.submitSolution x))
      (fun w y => ∀ i, x.attemptId = some i → y = .ok () →
        SeenOwn (.attempt (.submitSolution x)) w i) []
      (Api.validateAssessmentSubmission x.problemId x.language x.userId x.assessmentId
        x.attemptId) := by
  cases hattempt : x.attemptId with
  | none =>
    cases x.assessmentId with
    | none => exact fun i hi => by cases hi
    | some assessmentId => exact fun i hi => by cases hi
  | some id =>
    cases x.assessmentId with
    | none => exact fun i _ hy => by cases hy
    | some assessmentId =>
      refine keeps_open (fun _ _ _ _ h => by cases h) fun attempt => ?_
      refine Api.obeys_require (fun hown => ?_) fun _ _ _ h => by cases h
      refine Api.obeys_require (fun _ => ?_) fun _ _ _ h => by cases h
      have hseen : ∀ w : View, [Sighting.found id none attempt] ⊆ w →
          SeenOwn (.attempt (.submitSolution x)) w id := fun w hw =>
        ⟨none, attempt, x.userId, rfl, hown, hw (List.mem_singleton_self _)⟩
      refine Program.Obeys.call_bind (fun _ => asks_base (by simp)) (fun _ => ?_)
        fun _ _ _ _ h => by cases h
      refine Api.obeys_demand (fun assessment _ => ?_) fun _ _ _ h => by cases h
      refine Api.obeys_require (fun _ => ?_) fun _ _ _ h => by cases h
      refine Api.obeys_require (fun _ => ?_) fun _ _ _ h => by cases h
      refine Program.Obeys.call_bind (fun _ => asks_base (by simp)) (fun now => ?_)
        fun _ _ _ _ h => by cases h
      split
      · refine Program.Obeys.call_bind (fun hw => ?_) (fun _ _ _ _ h => by cases h)
          fun _ _ _ _ h => by cases h
        exact ⟨hattempt, .inl (.inl (hseen _ hw)), fun e he => by cases he⟩
      · refine Api.obeys_require (fun _ => ?_) fun _ _ _ h => by cases h
        unfold Api.require
        split
        · intro hw i hi _
          cases hi
          exact hseen _ hw
        · exact fun _ _ _ h => by cases h

theorem keeps_submitSolution (x : Api.Solution) :
    Keeps (.attempt (.submitSolution x)) (fun _ _ => True) [] (Api.submitSolution x) := by
  refine Program.Obeys.bind (keeps_validateAssessmentSubmission x) (fun v _ hv => ?_)
    fun _ _ _ => trivial
  apply Keeps.grows
  have hread : ∀ (w : View) (r : Api.Request), (∀ i u, r ≠ .updateAttempt i u) → v ⊆ w →
      Asks (.attempt (.submitSolution x)) w (.base r) := fun _ _ hr _ => asks_base hr
  refine Program.Obeys.bind (checkLimits_spec hread x) (fun w _ _ => ?_) fun _ _ _ _ => trivial
  refine Program.Obeys.call_bind (hread _ _ (by simp)) (fun found => ?_) fun _ _ => trivial
  cases found with
  | none => exact fun _ => trivial
  | some problem =>
    refine Program.Obeys.bind (checkPremium_spec hread x problem) (fun w _ _ => ?_)
      fun _ _ _ _ => trivial
    refine Program.Obeys.call_bind (hread _ _ (by simp)) (fun submission => ?_) fun _ _ => trivial
    refine Program.Obeys.bind (logSubmission_spec hread (fun w i t title d hi hw => ?_) _ _)
      (fun w _ _ => ?_) fun _ _ _ _ => trivial
    · exact ⟨hi, .inl (.inl ((hv i hi rfl).mono hw)), fun e he => by cases he; exact rfl⟩
    refine Api.obeys_require (fun _ => ?_) fun _ => trivial
    exact Program.Obeys.call_bind (hread _ _ (by simp)) (fun _ _ => trivial) fun _ _ => trivial

/-- An operation on attempts asks for the same where it is offered with the others. -/
theorem Keeps.lift {Q : View → Except ServiceError α → Prop} {t : Api.Task α}
    (h : Keeps op Q v t) : (t.expand fun r => ask (.base r)).Obeys look (Asks op) Q v := by
  have hexpand : (t.expand fun r => ask (.base r)).Obeys look (Asks op)
      (fun u x => ∃ w, u = w ∧ Q w x) v := by
    refine Program.Obeys.expand h (fun w w' r hw hP => ?_) rfl
    subst hw
    exact Program.Obeys.call hP (fun _ => rfl) fun _ => rfl
  refine hexpand.mono (fun _ _ hr => hr) fun w x hx => ?_
  obtain ⟨w', rfl, hQ⟩ := hx
  exact hQ

theorem ends_attempt {w : View} {y : Except ServiceError (Option Attempt)}
    (h : ∀ a, y = .ok (some a) → Showed w id a ∧ Cleared op w id) :
    Ends op w ((y.map Api.Response.attempt).map Response.attempt) := by
  intro response hresponse
  cases y with
  | error e => cases hresponse
  | ok a =>
    cases hresponse
    cases a with
    | none => exact trivial
    | some a => exact ⟨id, h a rfl⟩

/-- The handler of an operation that answers with an attempt. -/
theorem attempt_obeys_of_keeps {t : Api.Task (Option Attempt)}
    (h : Keeps op (fun w x => ∀ a, x = .ok (some a) → Showed w id a ∧ Cleared op w id) [] t) :
    (Response.attempt <$> (Api.Response.attempt <$> t).expand fun r => ask (.base r)).Obeys look
      (Asks op) (Ends op) [] := by
  refine Program.Obeys.map (Keeps.lift (Program.Obeys.map ?_))
  exact h.mono (fun _ _ hr => hr) fun _ _ hy => ends_attempt hy

/-- The operations on attempts, behind the roles of their routes. -/
theorem attempt_obeys (base : Api.Operation)
    (hrole : ∀ user ∈ (Operation.attempt base).user, user.role ∈ (Operation.attempt base).roles) :
    (Operation.attempt base).handler.Obeys look (Asks (.attempt base)) (Ends (.attempt base))
      [] := by
  cases base with
  | submitAssessment i user => exact attempt_obeys_of_keeps (keeps_submitAssessment user)
  | getAssessmentAttemptById i user =>
    refine Program.Obeys.map (Keeps.lift (Program.Obeys.map ?_))
    refine (keeps_getAssessmentAttemptById user).mono (fun _ _ hr => hr) fun w y hy => ?_
    intro response hresponse
    cases y with
    | error e => cases hresponse
    | ok d =>
      cases hresponse
      cases d with
      | none => exact trivial
      | some d => exact ⟨i, hy d rfl⟩
  | addGraceTime i minutes user => exact attempt_obeys_of_keeps (keeps_addGraceTime minutes user)
  | raiseChallenge i reason user => exact attempt_obeys_of_keeps (keeps_raiseChallenge reason user)
  | resolveChallenge i status comment user =>
    have hstaff : user.role ≠ .student := by
      intro hstudent
      have hmem := hrole user rfl
      rw [hstudent] at hmem
      have hnot : Role.student ∉ Operation.staff := by decide
      exact hnot hmem
    exact attempt_obeys_of_keeps (keeps_resolveChallenge status comment hstaff)
  | submitSolution x =>
    refine Program.Obeys.map (Keeps.lift (Program.Obeys.map ?_))
    refine (keeps_submitSolution x).mono (fun _ _ hr => hr) fun w y _ => ?_
    intro response hresponse
    cases y with
    | error e => cases hresponse
    | ok d =>
      cases hresponse
      exact trivial
  | wait ms =>
    refine Program.Obeys.map (Keeps.lift (Program.Obeys.map ?_))
    refine ⟨asks_base (by simp), fun x response hresponse => ?_, fun e response hresponse => ?_⟩
    · cases hresponse
      exact trivial
    · cases hresponse

end Attempts

/-! ## Proctoring -/

section Proctoring

variable {α β V : Type} {look : V → (r : Request) → Reply r → V} {P : V → Request → Prop}
  {Q : V → Except ServiceError β → Prop} {v : V}

theorem obeys_demand {x : Option α} {e : ServiceError} {f : α → Task β}
    (hsome : ∀ a, x = some a → (f a).Obeys look P Q v) (hnone : Q v (.error e)) :
    (demand x e >>= f).Obeys look P Q v := by
  cases x with
  | some a => exact hsome a rfl
  | none => exact hnone

theorem obeys_require {c : Prop} [Decidable c] {e : ServiceError} {f : Unit → Task β}
    (hc : c → (f ()).Obeys look P Q v) (hnot : Q v (.error e)) :
    (require c e >>= f).Obeys look P Q v := by
  unfold require
  by_cases h : c
  · rw [if_pos h]
    exact hc h
  · rw [if_neg h]
    exact hnot

end Proctoring

section Handlers

variable {id : ObjectId} {user : User}

/-- The first lookup of a handler; what follows has seen what it found. -/
theorem obeys_open {α : Type} {op : Operation} {scope : Option ObjectId} {e : ServiceError}
    {f : FoundWatched → Task α} {Q : View → Except ServiceError α → Prop}
    (herror : ∀ w e, Q w (.error e))
    (hf : ∀ w : FoundWatched,
      (f w).Obeys look (Asks op) Q [.found id scope w.found]) :
    (ask (.findWatched id scope) >>= fun found => demand found e >>= f).Obeys look (Asks op) Q
      [] := by
  refine Program.Obeys.call_bind trivial (fun found => ?_) fun _ => herror _ _
  cases found with
  | none => exact herror _ _
  | some w => exact hf w

theorem logAntiCheatingEvent_obeys (eventType : JsValue) :
    (Operation.logAntiCheatingEvent id eventType user).handler.Obeys look
      (Asks (.logAntiCheatingEvent id eventType user))
      (Ends (.logAntiCheatingEvent id eventType user)) [] := by
  refine Program.Obeys.map (obeys_open (fun _ _ _ h => by cases h) fun attempt => ?_)
  refine obeys_demand (fun studentId hstudent => ?_) fun _ h => by cases h
  refine obeys_require (fun hown => ?_) fun _ h => by cases h
  have hseen : SeenOwn (.logAntiCheatingEvent id eventType user)
      [.found id (collegeScopeFor user) attempt.found] id :=
    ⟨_, attempt.found, user.id, rfl, hown ▸ hstudent, List.mem_singleton_self _⟩
  split
  · intro response hresponse
    cases hresponse
    exact ⟨id, .inl ⟨_, _, List.mem_singleton_self _, rfl⟩, .inl hseen⟩
  · refine Program.Obeys.call_bind trivial (fun t => ?_) fun _ _ h => by cases h
    refine obeys_demand (fun e he => ?_) fun _ h => by cases h
    refine ⟨⟨hseen, eventType, user, rfl, he⟩, fun x response hresponse => ?_,
      fun _ _ h => by cases h⟩
    cases hresponse
    cases x with
    | none => exact trivial
    | some w =>
      refine ⟨id, .inr (List.mem_append_right _ (List.mem_singleton_self _)), .inl ?_⟩
      exact hseen.mono (List.subset_append_left _ _)

/-- The attempt found is the caller's to open, by the check of a handler. -/
theorem cleared_found {op : Operation} {w : FoundWatched} {studentId : ObjectId}
    (huser : op.user = some user) (hcaller : op.callerId = some user.id)
    (hstudent : w.found.student = some studentId)
    (hown : user.role = .student → studentId = user.id) :
    Cleared op [.found id (collegeScopeFor user) w.found] id := by
  by_cases hrole : user.role = .student
  · exact .inl ⟨_, w.found, user.id, hcaller, hown hrole ▸ hstudent, List.mem_singleton_self _⟩
  · exact .inr ⟨⟨user, w.found, huser, List.mem_singleton_self _⟩, user, huser, hrole⟩

theorem saveDraft_obeys (codeDrafts : Option JsValue) :
    (Operation.saveDraft id codeDrafts user).handler.Obeys look
      (Asks (.saveDraft id codeDrafts user)) (Ends (.saveDraft id codeDrafts user)) [] := by
  refine Program.Obeys.map (obeys_open (fun _ _ _ h => by cases h) fun attempt => ?_)
  refine obeys_require (fun _ => ?_) fun _ h => by cases h
  refine obeys_demand (fun studentId hstudent => ?_) fun _ h => by cases h
  refine obeys_require (fun hown => ?_) fun _ h => by cases h
  have hcleared := @cleared_found id user (.saveDraft id codeDrafts user) attempt studentId rfl
    rfl hstudent hown
  refine ⟨⟨hcleared, user, rfl⟩, fun x response hresponse => ?_, fun _ _ h => by cases h⟩
  cases hresponse
  cases x with
  | none => exact trivial
  | some w =>
    refine ⟨id, .inr (List.mem_append_right _ (List.mem_singleton_self _)), ?_⟩
    exact hcleared.mono (List.subset_append_left _ _)

/-- `lockAssessment` and `unlockAssessment`. -/
theorem setLock_obeys {op : Operation} (locked : Bool) (huser : op.user = some user) :
    (Response.assessment <$> setLock locked id user).Obeys look (Asks op) (Ends op) [] := by
  refine Program.Obeys.map (obeys_require (fun hrole => ?_) fun _ h => by cases h)
  refine Program.Obeys.call_bind ⟨user, huser, hrole, rfl⟩ (fun found => ?_)
    fun _ _ h => by cases h
  cases found with
  | none => exact fun _ h => by cases h
  | some assessment =>
    intro response hresponse
    cases hresponse
    exact trivial

theorem listAssessmentAttempts_obeys (skip limit : ℕ) :
    (Operation.listAssessmentAttempts id user skip limit).handler.Obeys look
      (Asks (.listAssessmentAttempts id user skip limit))
      (Ends (.listAssessmentAttempts id user skip limit)) [] := by
  refine Program.Obeys.map (obeys_require (fun hrole => ?_) fun _ h => by cases h)
  refine ⟨trivial, fun as response hresponse => ?_, fun _ _ h => by cases h⟩
  cases hresponse
  exact ⟨user, rfl, hrole, List.mem_singleton_self _⟩

theorem getAttemptSubmissions_obeys (skip limit : ℕ) :
    (Operation.getAttemptSubmissions id user skip limit).handler.Obeys look
      (Asks (.getAttemptSubmissions id user skip limit))
      (Ends (.getAttemptSubmissions id user skip limit)) [] := by
  refine Program.Obeys.map (obeys_open (fun _ _ _ h => by cases h) fun attempt => ?_)
  refine obeys_demand (fun studentId hstudent => ?_) fun _ h => by cases h
  refine obeys_require (fun hown => ?_) fun _ h => by cases h
  have hcleared := @cleared_found id user (.getAttemptSubmissions id user skip limit) attempt
    studentId rfl rfl hstudent hown
  refine ⟨trivial, fun ds response hresponse => ?_, fun _ _ h => by cases h⟩
  cases hresponse
  refine ⟨id, List.mem_append_right _ (List.mem_singleton_self _), ?_⟩
  exact hcleared.mono (List.subset_append_left _ _)

end Handlers

/-- **Every operation asks for what it may and shows what it may.** -/
theorem program_obeys (op : Operation) :
    (service.program op).Obeys service.look (Asks op) (Ends op) service.blank := by
  refine obeys_require (fun hrole => ?_) fun _ h => by cases h
  cases op with
  | attempt base => exact attempt_obeys base hrole
  | logAntiCheatingEvent id eventType user => exact logAntiCheatingEvent_obeys eventType
  | saveDraft id codeDrafts user => exact saveDraft_obeys codeDrafts
  | lockAssessment id user => exact setLock_obeys true rfl
  | unlockAssessment id user => exact setLock_obeys false rfl
  | listAssessmentAttempts id user skip limit => exact listAssessmentAttempts_obeys skip limit
  | getAttemptSubmissions id user skip limit => exact getAttemptSubmissions_obeys skip limit

end Proctoring
