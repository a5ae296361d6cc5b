/-
# Starting an assessment

`startAssessment` (`services/assessments.service.js`) looks for the student's attempt and
creates one where there is none.  Calls of one student may race between the two; the unique
index on the assessment and the student of an attempt lets only one of them in, and the
others read what it created.

* `service` : the calls over the collections; any request may be refused, or be carried out
  and its answer lost.
* `startAssessment_once` : in every interleaving there is one attempt for a student and an
  assessment, every call that returns returns it, and it has the problems of the assessment
  in some order.
-/
import JudgePlatform.Api.Attempts

namespace Starts

open Api (ObjectId Date User Role Attempt AttemptStatus ChallengeStatus TimelineEvent
  AssessmentProblem ServiceError collegeScopeFor findDoc inScope)

/-! ## Documents -/

inductive AssessmentStatus where
  | draft
  | published
  | completed
  deriving DecidableEq

/-- An assessment with what starting it reads. -/
structure Assessment extends Api.Assessment where
  status : AssessmentStatus
  startTime : Date

/-- `AuditLog`, for the start of an assessment. -/
structure AuditLog where
  event : String
  userId : ObjectId
  assessmentId : ObjectId
  attemptId : ObjectId
  ip : String
  userAgent : String

structure AuditInfo where
  ip : String
  userAgent : String

structure Store where
  assessments : List Assessment
  /-- the problems that there are -/
  problems : List ObjectId
  attempts : List Attempt
  auditLogs : List AuditLog

/-- An assessment whose problem references are populated. -/
structure FoundAssessment where
  doc : Assessment
  problems : List (Option ObjectId)

/-- The attempt that `create` is called with. -/
structure NewAttempt where
  assessmentId : ObjectId
  studentId : ObjectId
  collegeId : Option ObjectId
  startedAt : Date
  status : AttemptStatus
  problemOrder : List ObjectId
  timeline : List TimelineEvent

/-- The new document, with the defaults of the schema. -/
def NewAttempt.document (d : NewAttempt) (id : ObjectId) : Attempt where
  id := id
  assessmentId := d.assessmentId
  studentId := d.studentId
  collegeId := d.collegeId
  startedAt := d.startedAt
  submittedAt := none
  score := .zero
  status := d.status
  graceMinutes := .zero
  challenge := ⟨.none, none, none, none, none⟩
  problemOrder := d.problemOrder
  timeline := d.timeline

/-- What the unique index looks at. -/
def Of (assessmentId studentId : ObjectId) (a : Attempt) : Prop :=
  a.assessmentId = assessmentId ∧ a.studentId = studentId

instance (assessmentId studentId : ObjectId) : DecidablePred (Of assessmentId studentId) :=
  fun _ => inferInstanceAs (Decidable (_ ∧ _))

namespace Store

def assessment (s : Store) (id : ObjectId) : Option Assessment :=
  findDoc (fun a : Assessment => a.id) s.assessments id

/-- `populate("problems.problemId")`. -/
def populate (s : Store) (a : Assessment) : FoundAssessment where
  doc := a
  problems := a.problems.map fun p => if p.problemId ∈ s.problems then some p.problemId else none

def attempt (s : Store) (assessmentId studentId : ObjectId) : Option Attempt :=
  s.attempts.find? fun a => Of assessmentId studentId a

end Store

/-! ## Requests -/

inductive Request where
  | now
  | findAssessment (id : ObjectId) (scope : Option ObjectId)
  | findAttempt (assessmentId studentId : ObjectId)
  /-- `[...problemIds].sort(() => Math.random() - 0.5)` -/
  | shuffle (problemIds : List ObjectId)
  | createAttempt (d : NewAttempt)
  | createAuditLog (e : AuditLog)

/-- What a request is answered with.  Whatever its comparator says, a sort returns some
permutation; a creation that hits the unique index (code 11000) is answered `none`. -/
def Reply : Request → Type
  | .now => Date
  | .findAssessment _ _ => Option FoundAssessment
  | .findAttempt _ _ => Option Attempt
  | .shuffle problemIds => { order : List ObjectId // order.Perm problemIds }
  | .createAttempt _ => Option Attempt
  | .createAuditLog _ => Unit

/-- What becomes of a request to the database. -/
inductive Outcome where
  | served
  | refused
  /-- it is carried out, and the connection breaks before the answer -/
  | answerLost

/-- What the environment decides: the fate of a request, the time, the order of a sort with
an inconsistent comparator, and an identifier that no document has. -/
structure Choice where
  outcome : Outcome := .served
  time : Date := .zero
  order : (problemIds : List ObjectId) → { order : List ObjectId // order.Perm problemIds } :=
    fun problemIds => ⟨problemIds, .refl problemIds⟩
  newId : (taken : List ObjectId) → { id : ObjectId // id ∉ taken }

abbrev Task (α : Type) := Program Reply ServiceError α

abbrev ask (r : Request) : Task (Reply r) := Program.call r

/-- Serve a request that reaches the database. -/
def answer (c : Choice) (s : Store) : (r : Request) → Reply r × Store
  | .now => (c.time, s)
  | .findAssessment id scope =>
    (((s.assessment id).filter fun a => inScope scope a.collegeId).map s.populate, s)
  | .findAttempt assessmentId studentId => (s.attempt assessmentId studentId, s)
  | .shuffle problemIds => (c.order problemIds, s)
  | .createAttempt d =>
    if (s.attempt d.assessmentId d.studentId).isSome then (none, s)
    else
      let attempt := d.document (c.newId (s.attempts.map Attempt.id))
      (some attempt, { s with attempts := s.attempts ++ [attempt] })
  | .createAuditLog e => ((), { s with auditLogs := s.auditLogs ++ [e] })

/-- The clock and the sort are no requests to the database. -/
def Request.fallible : Request → Bool
  | .now => false
  | .shuffle _ => false
  | _ => true

def serve (c : Choice) (s : Store) (r : Request) : Except ServiceError (Reply r) × Store :=
  if r.fallible then
    match c.outcome with
    | .served => (.ok (answer c s r).1, (answer c s r).2)
    | .refused => (.error .unavailable, s)
    | .answerLost => (.error .unavailable, (answer c s r).2)
  else (.ok (answer c s r).1, (answer c s r).2)

/-! ## The function -/

/-- `auditService.logEvent`, which catches what goes wrong. -/
def logEvent (e : AuditLog) : Task Unit :=
  tryCatch (ask (.createAuditLog e)) fun _ => pure ()

/-- `p.problemId._id || p.problemId` for each problem; a deleted one is null and throws. -/
def problemIds (assessment : FoundAssessment) : Task (List ObjectId) :=
  match assessment.problems.mapM id with
  | some ids => pure ids
  | none => throw .typeError

def startAssessment (assessmentId : ObjectId) (user : User) (auditInfo : AuditInfo) :
    Task (Option Attempt) := do
  let found : Option FoundAssessment ← ask (.findAssessment assessmentId (collegeScopeFor user))
  match found with
  | none => throw (.http 404 "Assessment not found")
  | some assessment =>
    if assessment.doc.status ≠ .published then throw (.http 400 "Assessment is not active")
    if assessment.doc.locked then throw (.http 409 "Assessment is locked by the faculty")
    let now : Date ← ask .now
    if now.lt assessment.doc.startTime then throw (.http 400 "Assessment has not started yet")
    if assessment.doc.endTime.lt now then throw (.http 400 "Assessment has already ended")
    let attempt : Option Attempt ← ask (.findAttempt assessmentId user.id)
    match attempt with
    | some attempt => return some attempt
    | none =>
      let problemIds ← problemIds assessment
      let shuffledOrder : { order : List ObjectId // order.Perm problemIds } ←
        ask (.shuffle problemIds)
      let created : Option Attempt ← ask (.createAttempt {
        assessmentId
        studentId := user.id
        collegeId := assessment.doc.collegeId.or user.collegeId
        startedAt := now
        status := .active
        problemOrder := shuffledOrder
        timeline := [.start now] })
      match created with
      | none => ask (.findAttempt assessmentId user.id)
      | some attempt =>
        logEvent {
          event := "ASSESSMENT_STARTED"
          userId := user.id
          assessmentId
          attemptId := attempt.id
          ip := auditInfo.ip
          userAgent := auditInfo.userAgent }
        return some attempt

/-! ## Calls side by side -/

/-- A call of `startAssessment`. -/
structure Operation where
  assessmentId : ObjectId
  user : User
  auditInfo : AuditInfo

/-- What a call has seen: the assessment, the attempt it was last told of, whether its
creation hit the index, and whether the attempt was missing after that. -/
structure Seen where
  found : Option FoundAssessment := none
  attempt : Option Attempt := none
  duplicate : Bool := false
  missing : Bool := false

def look (v : Seen) : (r : Request) → Reply r → Seen
  | .findAssessment _ _, x => { v with found := x }
  | .findAttempt _ _, (x : Option Attempt) =>
    { v with attempt := x, missing := v.duplicate && x.isNone }
  | .createAttempt _, (x : Option Attempt) => { v with attempt := x, duplicate := x.isNone }
  | _, _ => v

def service : Service Operation Store Choice Seen Reply ServiceError (Option Attempt) where
  program := fun op => startAssessment op.assessmentId op.user op.auditInfo
  serve := serve
  blank := {}
  look := look

abbrev Config := Service.Config Operation Store Seen Reply ServiceError (Option Attempt)

/-- The interleavings of calls that start in a store. -/
def system (s₀ : Store) := service.system (· = s₀)

/-! ### What a call asks -/

/-- A call asks for its assessment and for the student's attempt at it, and creates such an
attempt, with the problems that it found in some order. -/
def Asks (op : Operation) (v : Seen) : Request → Prop
  | .findAssessment id _ => id = op.assessmentId
  | .findAttempt assessmentId studentId => assessmentId = op.assessmentId ∧ studentId = op.user.id
  | .createAttempt d =>
    d.assessmentId = op.assessmentId ∧ d.studentId = op.user.id ∧
      ∃ assessment ids, v.found = some assessment ∧ assessment.problems.mapM id = some ids ∧
        d.problemOrder.Perm ids
  | _ => True

/-- It returns the attempt that it was last told of; there is one, unless the index has kept
its creation out and the attempt was missing then. -/
def Ends (v : Seen) (x : Except ServiceError (Option Attempt)) : Prop :=
  ∀ a, x = .ok a → a = v.attempt ∧ (a = none → v.missing = true)

theorem ends_error (v : Seen) (e : ServiceError) : Ends v (.error e) := by
  intro a h
  cases h

theorem logEvent_obeys (op : Operation) (v : Seen) (e : AuditLog) :
    (logEvent e).Obeys look (Asks op) (fun w _ => w = v) v :=
  ⟨trivial, fun _ => rfl, fun _ => rfl⟩

/-- **A call keeps to this, whatever it is answered.** -/
theorem startAssessment_obeys (op : Operation) :
    (startAssessment op.assessmentId op.user op.auditInfo).Obeys look (Asks op) Ends {} := by
  unfold startAssessment
  refine Program.Obeys.call_bind rfl (fun found => ?_) fun e => ends_error _ e
  cases found with
  | none => exact ends_error _ _
  | some assessment =>
    refine .ite (fun _ => ends_error _ _) fun _ => .ite (fun _ => ends_error _ _) fun _ => ?_
    refine Program.Obeys.call_bind trivial (fun now => ?_) fun e => ends_error _ e
    refine .ite (fun _ => ends_error _ _) fun _ => .ite (fun _ => ends_error _ _) fun _ => ?_
    refine Program.Obeys.call_bind ⟨rfl, rfl⟩ (fun attempt => ?_) fun e => ends_error _ e
    cases attempt with
    | some attempt =>
      intro a h
      cases h
      exact ⟨rfl, fun h => by cases h⟩
    | none =>
      unfold problemIds
      cases hids : assessment.problems.mapM id with
      | none => exact ends_error _ _
      | some ids =>
        refine Program.Obeys.call_bind trivial (fun order => ?_) fun e => ends_error _ e
        refine Program.Obeys.call_bind ⟨rfl, rfl, assessment, ids, rfl, hids, order.2⟩
          (fun created => ?_) fun e => ends_error _ e
        cases created with
        | none =>
          refine Program.Obeys.call ⟨rfl, rfl⟩ (fun x a h => ?_) fun e => ends_error _ e
          obtain rfl := Except.ok.inj h
          refine ⟨rfl, fun hnone => ?_⟩
          rw [hnone]
          rfl
        | some attempt =>
          refine Program.Obeys.bind (logEvent_obeys op _ _) (fun w _ hw => ?_)
            fun w e _ => ends_error w e
          subst hw
          intro a h
          cases h
          exact ⟨rfl, fun h => by cases h⟩

/-! ## What the database does -/

/-- The unique index on the assessment and the student of an attempt. -/
def Indexed (attempts : List Attempt) : Prop :=
  attempts.Pairwise fun a b => ¬Of a.assessmentId a.studentId b

section Serve

variable {c : Choice} {s : Store} {r : Request}

theorem serve_cases (c : Choice) (s : Store) (r : Request) :
    serve c s r = (.ok (answer c s r).1, (answer c s r).2) ∨
    (serve c s r = (.error .unavailable, s) ∨
      serve c s r = (.error .unavailable, (answer c s r).2)) := by
  unfold serve
  cases r.fallible with
  | false => exact Or.inl rfl
  | true =>
    cases c.outcome with
    | served => exact Or.inl rfl
    | refused => exact Or.inr (Or.inl rfl)
    | answerLost => exact Or.inr (Or.inr rfl)

/-- What is stored changes by an audit entry, or by an attempt where there was none. -/
theorem answer_cases (c : Choice) (s : Store) (r : Request) :
    (answer c s r).2.assessments = s.assessments ∧ (answer c s r).2.problems = s.problems ∧
      ((answer c s r).2.attempts = s.attempts ∨
        ∃ d id, r = .createAttempt d ∧ s.attempt d.assessmentId d.studentId = none ∧
          (answer c s r).2.attempts = s.attempts ++ [d.document id]) := by
  cases r with
  | createAttempt d =>
    simp only [answer]
    cases hattempt : s.attempt d.assessmentId d.studentId with
    | some a => exact ⟨rfl, rfl, Or.inl rfl⟩
    | none => exact ⟨rfl, rfl, Or.inr ⟨d, _, rfl, hattempt, rfl⟩⟩
  | _ => exact ⟨rfl, rfl, Or.inl rfl⟩

theorem store_serve_cases (c : Choice) (s : Store) (r : Request) :
    (serve c s r).2 = s ∨ (serve c s r).2 = (answer c s r).2 := by
  rcases serve_cases c s r with h | h | h
  · exact Or.inr (congrArg Prod.snd h)
  · exact Or.inl (congrArg Prod.snd h)
  · exact Or.inr (congrArg Prod.snd h)

theorem attempts_subset_serve (c : Choice) (s : Store) (r : Request) :
    s.attempts ⊆ (serve c s r).2.attempts := by
  rcases store_serve_cases c s r with h | h
  · rw [h]
    exact List.Subset.refl _
  · rw [h]
    rcases (answer_cases c s r).2.2 with h | ⟨d, id, -, -, h⟩
    · rw [h]
      exact List.Subset.refl _
    · rw [h]
      exact List.subset_append_left _ _

theorem attempt_eq_none {assessmentId studentId : ObjectId}
    (h : s.attempt assessmentId studentId = none) : ∀ a ∈ s.attempts,
      ¬Of assessmentId studentId a := by
  intro a ha
  simpa using List.find?_eq_none.mp h a ha

theorem mem_of_attempt {assessmentId studentId : ObjectId} {a : Attempt}
    (h : s.attempt assessmentId studentId = some a) :
    a ∈ s.attempts ∧ Of assessmentId studentId a :=
  ⟨List.mem_of_find?_eq_some h, by simpa using List.find?_some h⟩

/-- A new attempt keeps to the index. -/
theorem Indexed.append {d : NewAttempt} (h : Indexed s.attempts)
    (hnone : s.attempt d.assessmentId d.studentId = none) (id : ObjectId) :
    Indexed (s.attempts ++ [d.document id]) := by
  refine List.pairwise_append.mpr ⟨h, List.pairwise_singleton _ _, fun a ha b hb => ?_⟩
  rw [List.mem_singleton.mp hb]
  rintro ⟨hassessment, hstudent⟩
  exact attempt_eq_none hnone a ha ⟨hassessment.symm, hstudent.symm⟩

/-- With the index there is one attempt of a student at an assessment. -/
theorem Indexed.eq_of_of {attempts : List Attempt} (h : Indexed attempts)
    {assessmentId studentId : ObjectId} {a b : Attempt} (ha : a ∈ attempts) (hb : b ∈ attempts)
    (haof : Of assessmentId studentId a) (hbof : Of assessmentId studentId b) : a = b := by
  by_contra hne
  have hsymm : Std.Symm fun a b : Attempt => ¬Of a.assessmentId a.studentId b :=
    ⟨fun a b hab hba => hab ⟨hba.1.symm, hba.2.symm⟩⟩
  refine h.forall ha hb hne ⟨?_, ?_⟩
  · rw [hbof.1, haof.1]
  · rw [hbof.2, haof.2]

theorem Indexed.filter_le {attempts : List Attempt} (h : Indexed attempts)
    (assessmentId studentId : ObjectId) :
    (attempts.filter fun a => Of assessmentId studentId a).length ≤ 1 := by
  have hpairwise : (attempts.filter fun a => Of assessmentId studentId a).Pairwise
      fun _ _ => False := by
    refine (h.filter _).imp_of_mem fun {a b} ha hb hne => hne ?_
    have haof : Of assessmentId studentId a := by simpa using (List.mem_filter.mp ha).2
    have hbof : Of assessmentId studentId b := by simpa using (List.mem_filter.mp hb).2
    exact ⟨hbof.1.trans haof.1.symm, hbof.2.trans haof.2.symm⟩
  cases hlist : attempts.filter fun a => Of assessmentId studentId a with
  | nil => exact Nat.zero_le _
  | cons a rest =>
    rw [hlist] at hpairwise
    have hrest : rest = [] := by
      refine List.eq_nil_iff_forall_not_mem.mpr fun b hb => ?_
      exact (List.pairwise_cons.mp hpairwise).1 b hb
    rw [hrest]
    rfl

end Serve

/-- The references that are found are those that the assessment holds. -/
theorem problemIds_of_populate (s : Store) (a : Assessment) {ids : List ObjectId}
    (h : (s.populate a).problems.mapM id = some ids) :
    ids = a.problems.map AssessmentProblem.problemId := by
  unfold Store.populate at h
  generalize a.problems = ps at h ⊢
  induction ps generalizing ids with
  | nil =>
    rw [List.map_nil, List.mapM_nil] at h
    exact (Option.some.inj h).symm
  | cons p ps ih =>
    rw [List.map_cons, List.mapM_cons] at h
    obtain ⟨i, hi, h⟩ := Option.bind_eq_some_iff.mp h
    obtain ⟨is, his, h⟩ := Option.bind_eq_some_iff.mp h
    have hp : i = p.problemId := by
      simp only [id_eq] at hi
      split_ifs at hi
      exact (Option.some.inj hi).symm
    rw [← Option.some.inj h, List.map_cons, ← ih his, hp]

/-! ## One attempt -/

/-- What a call has seen is so. -/
structure Truthful (s₀ : Store) (attempts : List Attempt) (op : Operation) (v : Seen) : Prop where
  found : ∀ f, v.found = some f →
    ∃ doc, s₀.assessment op.assessmentId = some doc ∧ f = s₀.populate doc
  attempt : ∀ a, v.attempt = some a → a ∈ attempts ∧ Of op.assessmentId op.user.id a
  duplicate : v.duplicate = true → ∃ a ∈ attempts, Of op.assessmentId op.user.id a
  missing : v.missing = false

/-- The attempts in a store that began as `s₀`: those of `s₀`, and created ones with the
problems of their assessment in some order. -/
def Created (s₀ : Store) (attempts : List Attempt) : Prop :=
  ∃ created, attempts = s₀.attempts ++ created ∧
    ∀ a ∈ created, ∃ assessment, s₀.assessment a.assessmentId = some assessment ∧
      a.problemOrder.Perm (assessment.problems.map AssessmentProblem.problemId)

structure StartInv (s₀ : Store) (s : Config) : Prop where
  assessments : s.store.assessments = s₀.assessments
  problems : s.store.problems = s₀.problems
  indexed : Indexed s.store.attempts
  created : Created s₀ s.store.attempts
  truthful : ∀ c ∈ s.calls, Truthful s₀ s.store.attempts c.op c.view

section Step

variable {s₀ : Store} {s : Config} {op : Operation} {v : Seen} {r : Request}

theorem Truthful.mono {attempts attempts' : List Attempt} (h : Truthful s₀ attempts op v)
    (hsub : attempts ⊆ attempts') : Truthful s₀ attempts' op v where
  found := h.found
  attempt := fun a ha => ⟨hsub (h.attempt a ha).1, (h.attempt a ha).2⟩
  duplicate := by
    intro hd
    obtain ⟨a, ha, hof⟩ := h.duplicate hd
    exact ⟨a, hsub ha, hof⟩
  missing := h.missing

theorem truthful_blank (s₀ : Store) (attempts : List Attempt) (op : Operation) :
    Truthful s₀ attempts op {} where
  found := by
    intro f h
    cases h
  attempt := by
    intro a h
    cases h
  duplicate := by
    intro h
    cases h
  missing := rfl

/-- What a call hears of a store is so as well. -/
theorem Truthful.look (h : Truthful s₀ s.store.attempts op v) (hinv : StartInv s₀ s)
    (hasks : Asks op v r) (c : Choice) :
    Truthful s₀ (answer c s.store r).2.attempts op (look v r (answer c s.store r).1) := by
  cases r with
  | findAssessment id scope =>
    refine ⟨fun f hf => ?_, h.attempt, h.duplicate, h.missing⟩
    obtain rfl : id = op.assessmentId := hasks
    obtain ⟨doc, hdoc, rfl⟩ := Option.map_eq_some_iff.mp hf
    have hfound := (Option.filter_eq_some_iff.mp hdoc).1
    refine ⟨doc, ?_, ?_⟩
    · rwa [Store.assessment, hinv.assessments] at hfound
    · simp only [Store.populate, hinv.problems]
  | findAttempt assessmentId studentId =>
    obtain ⟨rfl, rfl⟩ := hasks
    refine ⟨h.found, fun a ha => mem_of_attempt ha, h.duplicate, ?_⟩
    show (v.duplicate && (s.store.attempt op.assessmentId op.user.id).isNone) = false
    cases hd : v.duplicate with
    | false => rfl
    | true =>
      obtain ⟨a, ha, hof⟩ := h.duplicate hd
      cases hattempt : s.store.attempt op.assessmentId op.user.id with
      | some b => rfl
      | none => exact absurd hof (attempt_eq_none hattempt a ha)
  | createAttempt d =>
    obtain ⟨hassessment, hstudent, -⟩ := hasks
    simp only [answer, hassessment, hstudent]
    cases hattempt : s.store.attempt op.assessmentId op.user.id with
    | some a =>
      refine ⟨h.found, fun b hb => ?_, fun _ => ⟨a, mem_of_attempt hattempt⟩, h.missing⟩
      cases hb
    | none =>
      refine ⟨h.found, fun b hb => ?_, fun hd => ?_, h.missing⟩
      · obtain rfl := Option.some.inj hb
        exact ⟨List.mem_append_right _ (List.mem_singleton_self _), hassessment, hstudent⟩
      · cases hd
  | now => exact ⟨h.found, h.attempt, h.duplicate, h.missing⟩
  | shuffle ids => exact ⟨h.found, h.attempt, h.duplicate, h.missing⟩
  | createAuditLog e => exact ⟨h.found, h.attempt, h.duplicate, h.missing⟩

/-- A served request keeps the attempts as they should be. -/
theorem StartInv.serve (hinv : StartInv s₀ s) (h : Truthful s₀ s.store.attempts op v)
    (hasks : Asks op v r) (c : Choice) :
    let s' := (Starts.serve c s.store r).2
    s'.assessments = s₀.assessments ∧ s'.problems = s₀.problems ∧ Indexed s'.attempts ∧
      Created s₀ s'.attempts := by
  intro s'
  rcases store_serve_cases c s.store r with hs | hs
  · rw [show s' = s.store from hs]
    exact ⟨hinv.assessments, hinv.problems, hinv.indexed, hinv.created⟩
  · rw [show s' = _ from hs]
    obtain ⟨hassessments, hproblems, hattempts | ⟨d, id, rfl, hnone, hattempts⟩⟩ :=
      answer_cases c s.store r
    · rw [hattempts]
      exact ⟨hassessments.trans hinv.assessments, hproblems.trans hinv.problems, hinv.indexed,
        hinv.created⟩
    · rw [hattempts]
      refine ⟨hassessments.trans hinv.assessments, hproblems.trans hinv.problems,
        hinv.indexed.append hnone id, ?_⟩
      obtain ⟨created, hcreated, horder⟩ := hinv.created
      refine ⟨created ++ [d.document id], by rw [hcreated, List.append_assoc], fun a ha => ?_⟩
      rcases List.mem_append.mp ha with ha | ha
      · exact horder a ha
      · rw [List.mem_singleton.mp ha]
        obtain ⟨hassessment, -, assessment, ids, hfound, hids, hperm⟩ := hasks
        obtain ⟨doc, hdoc, rfl⟩ := h.found assessment hfound
        refine ⟨doc, ?_, ?_⟩
        · exact (congrArg s₀.assessment hassessment).trans hdoc
        · rw [← problemIds_of_populate s₀ doc hids]
          exact hperm

end Step

theorem reachable_startInv {s₀ : Store} (hindex : Indexed s₀.attempts) {s : Config}
    (hs : (system s₀).Reachable s) : StartInv s₀ s := by
  have hobeys : ∀ s, (system s₀).Reachable s →
      Service.CallsObey service Asks (fun _ => Ends) s :=
    fun s hs => Service.reachable_callsObey startAssessment_obeys hs
  induction hs with
  | init h =>
    obtain ⟨hstore, hcalls⟩ := h
    rename_i s
    refine ⟨by rw [hstore], by rw [hstore], by rwa [hstore], ⟨[], ?_, ?_⟩, ?_⟩
    · rw [hstore, List.append_nil]
    · intro a ha
      exact absurd ha List.not_mem_nil
    · intro c hc
      rw [hcalls] at hc
      exact absurd hc List.not_mem_nil
  | @step s₁ _ _ hs _ hstep ih =>
    have hs := hobeys _ hs
    obtain ⟨op, -, rfl⟩ | ⟨i, e, op, v, r, next, -, hi, rfl⟩ := Service.step_cases hstep
    · refine ⟨ih.assessments, ih.problems, ih.indexed, ih.created, fun c hc => ?_⟩
      rcases List.mem_append.mp hc with hc | hc
      · exact ih.truthful c hc
      · rw [List.mem_singleton.mp hc]
        exact truthful_blank s₀ _ op
    · have hasks : Asks op v r := hs.request hi
      have hv := ih.truthful _ (List.mem_of_getElem? hi)
      obtain ⟨hassessments, hproblems, hindexed, hcreated⟩ := ih.serve hv hasks e
      have hsub := attempts_subset_serve e s₁.store r
      refine ⟨hassessments, hproblems, hindexed, hcreated, fun c hc => ?_⟩
      rcases List.mem_or_eq_of_mem_set hc with hc | rfl
      · exact (ih.truthful c hc).mono hsub
      · show Truthful s₀ (serve e s₁.store r).2.attempts op (service.hear v r (serve e s₁.store r).1)
        rcases serve_cases e s₁.store r with h | h | h
        · rw [h]
          exact hv.look ih hasks e
        · rw [h]
          exact hv
        · rw [h] at hsub ⊢
          exact hv.mono hsub

/-- There is one attempt of a student at an assessment, each created one has the problems of
its assessment in some order, and the calls that have returned returned it. -/
structure StartedOnce (s₀ : Store) (s : Config) : Prop where
  once : ∀ assessmentId studentId,
    (s.store.attempts.filter fun a => Of assessmentId studentId a).length ≤ 1
  created : Created s₀ s.store.attempts
  returned : ∀ op v x, ⟨op, v, .done x⟩ ∈ s.calls →
    ∃ a ∈ s.store.attempts, x = some a ∧ Of op.assessmentId op.user.id a
  same : ∀ op v x op' v' x', ⟨op, v, .done x⟩ ∈ s.calls → ⟨op', v', .done x'⟩ ∈ s.calls →
    op.assessmentId = op'.assessmentId → op.user.id = op'.user.id → x = x'

/-- **One attempt per student**, in every interleaving of any number of calls. -/
theorem startAssessment_once (s₀ : Store) (hindex : Indexed s₀.attempts) {s : Config}
    (hs : (system s₀).Reachable s) : StartedOnce s₀ s := by
  have hinv := reachable_startInv hindex hs
  have hobeys : Service.CallsObey service Asks (fun _ => Ends) s :=
    Service.reachable_callsObey startAssessment_obeys hs
  have hreturned : ∀ op v x, ⟨op, v, .done x⟩ ∈ s.calls →
      ∃ a ∈ s.store.attempts, x = some a ∧ Of op.assessmentId op.user.id a := by
    intro op v x hc
    obtain ⟨hx, hmissing⟩ := hobeys.returned hc x rfl
    have hv := hinv.truthful _ hc
    cases x with
    | none => exact absurd (hmissing rfl) (by rw [hv.missing]; decide)
    | some a =>
      obtain ⟨ha, hof⟩ := hv.attempt a hx.symm
      exact ⟨a, ha, rfl, hof⟩
  refine ⟨hinv.indexed.filter_le, hinv.created, hreturned, ?_⟩
  intro op v x op' v' x' hc hc' hassessment hstudent
  obtain ⟨a, ha, rfl, hof⟩ := hreturned op v x hc
  obtain ⟨b, hb, rfl, hof'⟩ := hreturned op' v' x' hc'
  rw [← hassessment, ← hstudent] at hof'
  rw [hinv.indexed.eq_of_of ha hb hof hof']

/-! ### Two calls that race -/

/-- An identifier longer than all that are taken. -/
def longerId (taken : List ObjectId) : { id : ObjectId // id ∉ taken } where
  val := String.ofList (List.replicate ((taken.map String.length).sum + 1) '0')
  property := by
    intro hmem
    have hle := List.single_le_sum (fun n _ => Nat.zero_le n) _
      (List.mem_map_of_mem (f := String.length) hmem)
    rw [String.length_ofList, List.length_replicate] at hle
    omega

def openAssessment : Assessment where
  id := "quiz"
  endTime := .ofInt 1000
  durationMinutes := .ofInt 60
  allowedLanguages := ["python"]
  problems := [⟨"sum", .ofInt 100⟩, ⟨"sort", .ofInt 100⟩]
  collegeId := none
  locked := false
  status := .published
  startTime := .zero

def beforeStart : Store where
  assessments := [openAssessment]
  problems := ["sum", "sort"]
  attempts := []
  auditLogs := []

def startQuiz : Service.Action Operation Choice :=
  .start ⟨"quiz", ⟨"ada", .student, none⟩, ⟨"::1", "browser"⟩⟩

/-- Serve the `i`-th call; a sort reverses. -/
def serveNext (i : ℕ) : Service.Action Operation Choice :=
  .serve i {
    newId := longerId
    order := fun problemIds => ⟨problemIds.reverse, List.reverse_perm problemIds⟩ }

/-- The identifiers of the attempts returned. -/
def returnedIds (s : Config) : List ObjectId :=
  s.calls.filterMap fun c =>
    match c.rest with
    | .done x => x.map Attempt.id
    | _ => none

/-- Both calls find no attempt, and the second one's creation hits the index. -/
theorem startAssessment_once_race : ∃ s : Config, returnedIds s = ["0", "0"] ∧
    StartedOnce beforeStart s := by
  let T := system beforeStart
  have heval : (T.run ⟨beforeStart, []⟩
      (startQuiz :: startQuiz :: (List.replicate 4 (serveNext 0) ++
        List.replicate 4 (serveNext 1) ++ List.replicate 2 (serveNext 0) ++
          List.replicate 2 (serveNext 1)))).map returnedIds = some ["0", "0"] := by
    decide +kernel
  obtain ⟨s, hrun, hreturned⟩ := Option.map_eq_some_iff.mp heval
  have hinit : T.Reachable ⟨beforeStart, []⟩ := .init ⟨rfl, rfl⟩
  exact ⟨s, hreturned, startAssessment_once beforeStart List.Pairwise.nil (hinit.run hrun)⟩

end Starts
