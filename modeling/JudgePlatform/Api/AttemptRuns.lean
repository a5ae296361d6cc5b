/-
# Concurrent calls on attempts

The operations on attempts as a service: any number of calls run side by side
over the store.  A call's view keeps the attempt that it read first and the
updates that it made.

* `Writes` : the updates that an operation can issue, given its view.
* `program_obeys` : every call issues only these, in any interleaving.
-/
import JudgePlatform.Api.Submissions

namespace Api

/-! ## Operations -/

inductive Operation where
  | submitAssessment (attemptId : ObjectId) (user : User)
  | getAssessmentAttemptById (attemptId : ObjectId) (user : User)
  | addGraceTime (attemptId : ObjectId) (graceMinutes : Number) (user : User)
  | raiseChallenge (attemptId : ObjectId) (reason : Option String) (user : User)
  | resolveChallenge (attemptId : ObjectId) (status : String) (facultyComment : Option String)
      (user : User)
  | submitSolution (x : Solution)
  | wait (ms : ℕ)

inductive Response where
  | attempt (a : Option Attempt)
  | details (d : Option AttemptDetails)
  | submission (d : Option Submission)
  | done

def Operation.program : Operation → Task Response
  | .submitAssessment id user => Response.attempt <$> Api.submitAssessment id user
  | .getAssessmentAttemptById id user => Response.details <$> Api.getAssessmentAttemptById id user
  | .addGraceTime id graceMinutes user => Response.attempt <$> Api.addGraceTime id graceMinutes user
  | .raiseChallenge id reason user => Response.attempt <$> Api.raiseChallenge id reason user
  | .resolveChallenge id status comment user =>
    Response.attempt <$> Api.resolveChallenge id status comment user
  | .submitSolution x => Response.submission <$> Api.submitSolution x
  | .wait ms => (fun _ => Response.done) <$> ask (.wait ms)

/-- What a call has seen: the attempt it read first, under the identifier it asked
for, and the updates it made. -/
structure AttemptView where
  opened : Option (ObjectId × Attempt) := none
  written : List (ObjectId × AttemptUpdate) := []

def AttemptView.look (v : AttemptView) : (r : Request) → Reply r → AttemptView
  | .findAttempt id _, (found : Option FoundAttempt) =>
    { v with opened := v.opened.or (found.map fun f => (id, f.doc)) }
  | .updateAttempt id u, _ => { v with written := v.written ++ [(id, u)] }
  | _, _ => v

def attemptService :
    Service Operation Store Choice AttemptView Reply ServiceError Response where
  program := Operation.program
  serve := serve
  blank := {}
  look := AttemptView.look

abbrev AttemptConfig := Service.Config Operation Store AttemptView Reply ServiceError Response

/-- The interleavings of calls, from the stores that satisfy `Init`. -/
def attemptSystem (Init : Store → Prop) := attemptService.system Init

/-! ## What an operation writes -/

/-- An update of the score. -/
def setScore (total : Number) : AttemptUpdate := { score := some total }

/-- The event of a submission in the timeline. -/
def logEvent (e : TimelineEvent) : AttemptUpdate := { push := some e }

/-- **The updates that an operation issues.**  All but those of the score and the
logged submissions depend on the attempt as the call read it first. -/
def Writes (v : AttemptView) (id : ObjectId) (u : AttemptUpdate) : Operation → Prop
  | .submitAssessment attemptId _ =>
    id = attemptId ∧ ((∃ total, u = setScore total) ∨
      ∃ a, v.opened = some (id, a) ∧ a.status = .active ∧
        ((∃ t, u = timeOutLogged t) ∨ ∃ t t', u = submit t t'))
  | .getAssessmentAttemptById attemptId _ =>
    id = attemptId ∧ ((∃ total, u = setScore total) ∨
      ∃ a, v.opened = some (id, a) ∧ a.status = .active ∧ ∃ t, u = timeOut t)
  | .addGraceTime attemptId minutes _ =>
    id = attemptId ∧ ∃ a t, v.opened = some (id, a) ∧
      u = addGrace minutes ((orZero a.graceMinutes).add minutes) t (a.status = .timedOut)
  | .raiseChallenge attemptId reason _ =>
    id = attemptId ∧ ∃ a t t', v.opened = some (id, a) ∧ a.challenge.status = .none ∧
      u = raise reason t t'
  | .resolveChallenge attemptId status comment _ =>
    id = attemptId ∧ ∃ a d t t', v.opened = some (id, a) ∧ a.challenge.status = .raised ∧
      challengeDecision status = some d ∧ u = resolve d comment t t'
  | .submitSolution x =>
    x.attemptId = some id ∧
      ((∃ t p title submission, u = logEvent (.submitProblem t p title submission)) ∨
      ∃ a t, v.opened = some (id, a) ∧ a.status = .active ∧ u = timeOut t)
  | .wait _ => False

/-- The operations that make a single update and return. -/
def Operation.updatesOnce : Operation → Bool
  | .addGraceTime _ _ _ => true
  | .raiseChallenge _ _ _ => true
  | .resolveChallenge _ _ _ _ => true
  | _ => false

/-- What every request of a call satisfies. -/
structure Asks (op : Operation) (v : AttemptView) (r : Request) : Prop where
  writes : ∀ id u, r = .updateAttempt id u → Writes v id u op
  once : op.updatesOnce = true → v.written = []

/-- What every end of a call satisfies: an operation that updates once has done so
if and only if it returns. -/
def Ends (op : Operation) (v : AttemptView) (x : Except ServiceError Response) : Prop :=
  op.updatesOnce = true →
    match x with
    | .ok _ => ∃ id u, v.written = [(id, u)]
    | .error _ => v.written = []

/-! ## Every call obeys its specification -/

section Checks

variable {α β View : Type} {look : View → (r : Request) → Reply r → View}
  {P : View → Request → Prop} {Q : View → Except ServiceError β → Prop} {v : View}

theorem obeys_demand {x : Option α} {e : ServiceError} {f : α → Task β}
    (hsome : ∀ a, x = some a → (f a).Obeys look P Q v) (hnone : Q v (.error e)) :
    (demand x e >>= f).Obeys look P Q v := by
  cases x with
  | some a => exact hsome a rfl
  | none => exact hnone

theorem obeys_require {c : Prop} [Decidable c] {e : ServiceError} {f : Unit → Task β}
    (hc : c → (f ()).Obeys look P Q v) (hnot : Q v (.error e)) :
    (require c e >>= f).Obeys look P Q v := by
  unfold require
  by_cases h : c
  · rw [if_pos h]
    exact hc h
  · rw [if_neg h]
    exact hnot

end Checks

section Rules

variable {α β : Type} {P : AttemptView → Request → Prop}
  {Q : AttemptView → Except ServiceError β → Prop} {v : AttemptView}

/-- The start of every operation: the attempt that is found is the one the view keeps. -/
theorem obeys_open {i : ObjectId} {scope : Option ObjectId} {e : ServiceError}
    {f : FoundAttempt → Task β} (hask : P {} (.findAttempt i scope))
    (hf : ∀ attempt, (f attempt).Obeys AttemptView.look P Q ⟨some (i, attempt.doc), []⟩)
    (hend : ∀ x, Q {} (.error x)) :
    (ask (.findAttempt i scope) >>= fun found => demand found e >>= f).Obeys
      AttemptView.look P Q {} := by
  refine Program.Obeys.call_bind hask (fun found => ?_) hend
  cases found with
  | some attempt => exact hf attempt
  | none => exact hend e

end Rules

section Parts

variable {P : AttemptView → Request → Prop} {v : AttemptView} {i : ObjectId} {a : Attempt}

theorem isAttemptExpired_obeys (attempt : Attempt) (assessment : Assessment) (hP : P v .now) :
    (isAttemptExpired attempt assessment).Obeys AttemptView.look P (fun w _ => w = v) v :=
  Program.Obeys.call_bind hP (fun _ => rfl) fun _ => rfl

/-- A recalculation writes a score or nothing, and opens no other attempt. -/
theorem recalculateAttemptScore_obeys (hv : v.opened = some (i, a))
    (hread : ∀ w r, (∀ id u, r ≠ .updateAttempt id u) → P w r)
    (hscore : ∀ w total, P w (.updateAttempt i (setScore total))) :
    (recalculateAttemptScore i).Obeys AttemptView.look P
      (fun w _ => w.opened = some (i, a)) v := by
  have hopened : ∀ found : Option FoundAttempt,
      (v.look (.findAttempt i none) found).opened = some (i, a) := by
    intro found
    simp [AttemptView.look, hv]
  refine Program.Obeys.call_bind (hread _ _ (by simp)) (fun found => ?_) fun _ => hv
  cases found with
  | none => exact hopened none
  | some attempt =>
    refine Program.Obeys.call_bind (hread _ _ (by simp)) (fun assessment => ?_)
      fun _ => hopened (some attempt)
    cases assessment with
    | none => exact hopened (some attempt)
    | some assessment =>
      refine Program.Obeys.call_bind (hread _ _ (by simp)) (fun submissions => ?_)
        fun _ => hopened (some attempt)
      refine obeys_demand (fun total _ => ?_) (hopened (some attempt))
      split
      · exact hopened (some attempt)
      · exact Program.Obeys.call_bind (hscore _ total) (fun _ => hopened (some attempt))
          fun _ => hopened (some attempt)

end Parts

/-- The specification of an operation that may update more than once. -/
theorem asks_of_not_once {op : Operation} (hop : op.updatesOnce = false) {v : AttemptView}
    {r : Request} (h : ∀ id u, r = .updateAttempt id u → Writes v id u op) : Asks op v r :=
  ⟨h, fun honce => absurd (hop.symm.trans honce) Bool.false_ne_true⟩

theorem ends_of_not_once {op : Operation} (hop : op.updatesOnce = false) (v : AttemptView)
    (x : Except ServiceError Response) : Ends op v x :=
  fun honce => absurd (hop.symm.trans honce) Bool.false_ne_true

/-- A request that updates no attempt is always as specified for such an operation. -/
theorem asks_read {op : Operation} (hop : op.updatesOnce = false) {v : AttemptView} {r : Request}
    (hr : ∀ id u, r ≠ .updateAttempt id u) : Asks op v r :=
  asks_of_not_once hop fun id u h => absurd h (hr id u)

theorem submitAssessment_obeys (i : ObjectId) (user : User) :
    (Operation.submitAssessment i user).program.Obeys AttemptView.look
      (Asks (.submitAssessment i user)) (Ends (.submitAssessment i user)) {} := by
  have hread : ∀ v r, (∀ id u, r ≠ .updateAttempt id u) → Asks (.submitAssessment i user) v r :=
    fun _ _ => asks_read rfl
  have hend := @ends_of_not_once (.submitAssessment i user) rfl
  have hscore : ∀ v total,
      Asks (.submitAssessment i user) v (.updateAttempt i (setScore total)) := by
    intro v total
    refine asks_of_not_once rfl fun id u h => ?_
    cases h
    exact ⟨rfl, Or.inl ⟨total, rfl⟩⟩
  refine Program.Obeys.map (obeys_open (hread _ _ (by simp)) (fun attempt => ?_)
    fun _ => hend _ _)
  refine Program.Obeys.call_bind (hread _ _ (by simp)) (fun _ => ?_) fun _ => hend _ _
  refine obeys_demand (fun assessment _ => ?_) (hend _ _)
  refine obeys_demand (fun studentId _ => ?_) (hend _ _)
  refine obeys_require (fun _ => ?_) (hend _ _)
  by_cases hactive : attempt.doc.status = .active
  · rw [if_neg (by simpa using hactive)]
    refine Program.Obeys.bind (isAttemptExpired_obeys _ _ (hread _ _ (by simp)))
      (fun w expired hw => ?_) fun w e hw => hend _ _
    subst hw
    cases expired with
    | true =>
      refine Program.Obeys.bind (recalculateAttemptScore_obeys rfl hread hscore)
        (fun w _ hw => ?_) fun w e hw => hend _ _
      refine Program.Obeys.call (asks_of_not_once rfl fun id u h => ?_) (fun _ => hend _ _)
        fun _ => hend _ _
      cases h
      exact ⟨rfl, Or.inr ⟨_, hw, hactive, Or.inl ⟨_, rfl⟩⟩⟩
    | false =>
      refine Program.Obeys.bind (recalculateAttemptScore_obeys rfl hread hscore)
        (fun w _ hw => ?_) fun w e hw => hend _ _
      refine Program.Obeys.call_bind (hread _ _ (by simp)) (fun t => ?_) fun _ => hend _ _
      refine Program.Obeys.call_bind (hread _ _ (by simp)) (fun t' => ?_) fun _ => hend _ _
      refine Program.Obeys.call_bind (asks_of_not_once rfl fun id u h => ?_)
        (fun result => obeys_demand (fun _ _ => Program.Obeys.pure (hend _ _)) (hend _ _)) fun _ => hend _ _
      cases h
      exact ⟨rfl, Or.inr ⟨_, hw, hactive, Or.inr ⟨_, _, rfl⟩⟩⟩
  · rw [if_pos hactive]
    exact Program.Obeys.pure (hend _ _)

theorem timeOutExpired_obeys {P : AttemptView → Request → Prop} {v : AttemptView} {i : ObjectId}
    {a : Attempt} (hv : v.opened = some (i, a)) (assessment : Assessment) (hnow : P v .now)
    (hwrite : a.status = .active → ∀ t, P v (.updateAttempt i (timeOut t))) :
    (timeOutExpired i a assessment).Obeys AttemptView.look P
      (fun w _ => w.opened = some (i, a)) v := by
  unfold timeOutExpired
  by_cases hactive : a.status = .active
  · rw [if_pos hactive]
    refine Program.Obeys.bind (isAttemptExpired_obeys _ _ hnow) (fun w expired hw => ?_)
      fun w e hw => hw ▸ hv
    subst hw
    cases expired with
    | true => exact Program.Obeys.call_bind (hwrite hactive _) (fun _ => hv) fun _ => hv
    | false => exact hv
  · rw [if_neg hactive]
    exact hv

theorem getAssessmentAttemptById_obeys (i : ObjectId) (user : User) :
    (Operation.getAssessmentAttemptById i user).program.Obeys AttemptView.look
      (Asks (.getAssessmentAttemptById i user)) (Ends (.getAssessmentAttemptById i user)) {} := by
  have hread : ∀ v r, (∀ id u, r ≠ .updateAttempt id u) →
      Asks (.getAssessmentAttemptById i user) v r := fun _ _ => asks_read rfl
  have hend := @ends_of_not_once (.getAssessmentAttemptById i user) rfl
  have hscore : ∀ v total,
      Asks (.getAssessmentAttemptById i user) v (.updateAttempt i (setScore total)) := by
    intro v total
    refine asks_of_not_once rfl fun id u h => ?_
    cases h
    exact ⟨rfl, Or.inl ⟨total, rfl⟩⟩
  refine Program.Obeys.map ?_
  refine Program.Obeys.call_bind (hread _ _ (by simp)) (fun found => ?_) fun _ => hend _ _
  cases found with
  | none => exact Program.Obeys.pure (hend _ _)
  | some attempt =>
    have hopened : (AttemptView.look {} (.findAttempt i (collegeScopeFor user))
        (some attempt)).opened = some (i, attempt.doc) := rfl
    refine Program.Obeys.call_bind (hread _ _ (by simp)) (fun assessment => ?_) fun _ => hend _ _
    cases assessment with
    | none => exact Program.Obeys.pure (hend _ _)
    | some assessment =>
      refine Program.Obeys.bind
        (timeOutExpired_obeys hopened _ (hread _ _ (by simp)) fun hactive t => ?_)
        (fun w _ hw => ?_) fun _ _ _ => hend _ _
      · refine asks_of_not_once rfl fun id u h => ?_
        cases h
        exact ⟨rfl, Or.inr ⟨_, hopened, hactive, _, rfl⟩⟩
      refine Program.Obeys.bind (recalculateAttemptScore_obeys hw hread hscore)
        (fun w _ hw => ?_) fun _ _ _ => hend _ _
      refine Program.Obeys.call_bind (hread _ _ (by simp)) (fun final => ?_) fun _ => hend _ _
      refine obeys_demand (fun final _ => ?_) (hend _ _)
      refine obeys_demand (fun studentId _ => ?_) (hend _ _)
      refine obeys_require (fun _ => ?_) (hend _ _)
      split
      · exact Program.Obeys.pure (hend _ _)
      · exact obeys_demand (fun _ _ => Program.Obeys.pure (hend _ _)) (hend _ _)

/-! ### The operations that update once -/

/-- The last step of such an operation: its only update, whose answer it returns. -/
theorem obeys_update {op : Operation} {v : AttemptView} {i : ObjectId} {u : AttemptUpdate}
    (hv : v.written = []) (hwrites : Writes v i u op) :
    (ask (.updateAttempt i u)).Obeys AttemptView.look (Asks op)
      (fun w x => Ends op w (x.map Response.attempt)) v := by
  refine Program.Obeys.call ⟨fun id u' h => ?_, fun _ => hv⟩ (fun x _ => ?_) fun e _ => hv
  · cases h
    exact hwrites
  · refine ⟨i, u, ?_⟩
    show v.written ++ [(i, u)] = [(i, u)]
    rw [hv, List.nil_append]

/-- Before that, it only reads. -/
theorem asks_before {op : Operation} {v : AttemptView} (hv : v.written = []) {r : Request}
    (hr : ∀ id u, r ≠ .updateAttempt id u) : Asks op v r :=
  ⟨fun id u h => absurd h (hr id u), fun _ => hv⟩

theorem addGraceTime_obeys (i : ObjectId) (minutes : Number) (user : User) :
    (Operation.addGraceTime i minutes user).program.Obeys AttemptView.look
      (Asks (.addGraceTime i minutes user)) (Ends (.addGraceTime i minutes user)) {} := by
  refine Program.Obeys.map ?_
  refine obeys_require (fun _ => ?_) fun _ => rfl
  refine obeys_open (asks_before rfl (by simp)) (fun attempt => ?_) fun _ _ => rfl
  refine Program.Obeys.call_bind (asks_before rfl (by simp)) (fun t => ?_) fun _ _ => rfl
  exact obeys_update rfl ⟨rfl, _, t, rfl, rfl⟩

theorem raiseChallenge_obeys (i : ObjectId) (reason : Option String) (user : User) :
    (Operation.raiseChallenge i reason user).program.Obeys AttemptView.look
      (Asks (.raiseChallenge i reason user)) (Ends (.raiseChallenge i reason user)) {} := by
  refine Program.Obeys.map ?_
  refine obeys_open (asks_before rfl (by simp)) (fun attempt => ?_) fun _ _ => rfl
  refine obeys_demand (fun studentId _ => ?_) fun _ => rfl
  refine obeys_require (fun _ => ?_) fun _ => rfl
  refine obeys_require (fun _ => ?_) fun _ => rfl
  refine obeys_require (fun hnone => ?_) fun _ => rfl
  refine Program.Obeys.call_bind (asks_before rfl (by simp)) (fun t => ?_) fun _ _ => rfl
  refine Program.Obeys.call_bind (asks_before rfl (by simp)) (fun t' => ?_) fun _ _ => rfl
  exact obeys_update rfl ⟨rfl, _, t, t', rfl, hnone, rfl⟩

theorem resolveChallenge_obeys (i : ObjectId) (status : String) (comment : Option String)
    (user : User) :
    (Operation.resolveChallenge i status comment user).program.Obeys AttemptView.look
      (Asks (.resolveChallenge i status comment user))
      (Ends (.resolveChallenge i status comment user)) {} := by
  refine Program.Obeys.map ?_
  refine obeys_open (asks_before rfl (by simp)) (fun attempt => ?_) fun _ _ => rfl
  refine obeys_require (fun hraised => ?_) fun _ => rfl
  refine obeys_demand (fun decision hdecision => ?_) fun _ => rfl
  refine Program.Obeys.call_bind (asks_before rfl (by simp)) (fun t => ?_) fun _ _ => rfl
  refine Program.Obeys.call_bind (asks_before rfl (by simp)) (fun t' => ?_) fun _ _ => rfl
  exact obeys_update rfl ⟨rfl, _, decision, t, t', rfl, hraised, hdecision, rfl⟩

/-! ### Submissions -/

/-- What a submission looks at: the clock, its attempt and its assessment. -/
def Request.isLookup : Request → Bool
  | .now => true
  | .findAttempt _ _ => true
  | .findAssessment _ _ => true
  | _ => false

theorem Request.isPlain_of_isLookup {r : Request} (h : r.isLookup = true) : r.isPlain = true := by
  cases r with
  | now => rfl
  | findAttempt id scope => rfl
  | findAssessment id scope => rfl
  | _ => cases h

section Submission

variable {P : AttemptView → Request → Prop} {v : AttemptView}

/-- The check of a submission reads, or times its attempt out. -/
theorem validateAssessmentSubmission_obeys (problemId : ObjectId) (language : String)
    (userId : ObjectId) (assessmentId attemptId : Option ObjectId)
    (hread : ∀ w r, r.isLookup = true → P w r)
    (hwrite : ∀ i a t, attemptId = some i → a.status = .active →
      P ⟨some (i, a), []⟩ (.updateAttempt i (timeOut t))) :
    (validateAssessmentSubmission problemId language userId assessmentId attemptId).Obeys
      AttemptView.look P (fun _ _ => True) {} := by
  cases assessmentId with
  | none => cases attemptId <;> exact trivial
  | some assessmentId =>
    cases attemptId with
    | none => exact trivial
    | some i =>
      refine obeys_open (hread _ _ rfl) (fun attempt => ?_) fun _ => trivial
      refine obeys_require (fun _ => ?_) trivial
      refine obeys_require (fun _ => ?_) trivial
      refine Program.Obeys.call_bind (hread _ _ rfl) (fun _ => ?_) fun _ => trivial
      refine obeys_demand (fun assessment _ => ?_) trivial
      refine obeys_require (fun _ => ?_) trivial
      refine obeys_require (fun hactive => ?_) trivial
      refine Program.Obeys.call_bind (hread _ _ rfl) (fun now => ?_) fun _ => trivial
      split
      · exact Program.Obeys.call_bind (hwrite i attempt.doc _ rfl hactive) (fun _ => trivial)
          fun _ => trivial
      · refine obeys_require (fun _ => ?_) trivial
        unfold require
        split
        · exact trivial
        · exact trivial

theorem checkLimits_obeys (x : Solution) (hread : ∀ w l, P w (.checkLimit l)) :
    (checkLimits x).Obeys AttemptView.look P (fun _ _ => True) v := by
  refine Program.Obeys.call_bind (hread _ _) (fun (_ : Bool) => ?_) fun _ => trivial
  refine obeys_require (fun _ => ?_) trivial
  cases x.collegeId with
  | none => exact trivial
  | some collegeId =>
    refine Program.Obeys.call_bind (hread _ _) (fun (_ : Bool) => ?_) fun _ => trivial
    refine obeys_require (fun _ => ?_) trivial
    refine Program.Obeys.call_bind (hread _ _) (fun (_ : Bool) => ?_) fun _ => trivial
    unfold require
    split
    · exact trivial
    · exact trivial

theorem checkPremium_obeys (x : Solution) (problem : Problem)
    (hread : ∀ w collegeId, P w (.checkLimit (.premium collegeId))) :
    (checkPremium x problem).Obeys AttemptView.look P (fun _ _ => True) v := by
  unfold checkPremium
  split
  · refine Program.Obeys.call_bind (hread _ _) (fun (_ : Bool) => ?_) fun _ => trivial
    unfold require
    split
    · exact trivial
    · exact trivial
  · exact trivial

theorem logSubmission_obeys (x : Solution) (problem : Problem) (submission : Submission)
    (hread : ∀ w r, r.isLookup = true → P w r)
    (hlog : ∀ w i t p title submission, x.attemptId = some i →
      P w (.updateAttempt i (logEvent (.submitProblem t p title submission)))) :
    (logSubmission x problem submission).Obeys AttemptView.look P (fun _ _ => True) v := by
  unfold logSubmission
  cases hx : x.attemptId with
  | none => exact trivial
  | some i =>
    have hbody : Program.Obeys AttemptView.look P (fun _ _ => True) v (do
        let timestamp ← ask .now
        let _ ← ask (.updateAttempt i
          { push := some (.submitProblem timestamp x.problemId problem.title submission.id) })
        pure ()) := by
      refine Program.Obeys.call_bind (hread _ _ rfl) (fun t => ?_) fun _ => trivial
      exact Program.Obeys.call_bind (hlog _ i _ _ _ _ hx) (fun _ => trivial) fun _ => trivial
    exact Program.Obeys.tryCatch hbody (fun _ _ _ => trivial) fun _ _ _ => trivial

end Submission

theorem submitSolution_obeys (x : Solution) :
    (Operation.submitSolution x).program.Obeys AttemptView.look
      (Asks (.submitSolution x)) (Ends (.submitSolution x)) {} := by
  have hread : ∀ v r, (∀ id u, r ≠ .updateAttempt id u) → Asks (.submitSolution x) v r :=
    fun _ _ => asks_read rfl
  have hplain : ∀ v r, r.isPlain = true → Asks (.submitSolution x) v r := by
    intro v r hr
    refine hread v r fun id u h => ?_
    rw [h] at hr
    cases hr
  have hlookup : ∀ v r, r.isLookup = true → Asks (.submitSolution x) v r :=
    fun v r hr => hplain v r (Request.isPlain_of_isLookup hr)
  have hend := @ends_of_not_once (.submitSolution x) rfl
  refine Program.Obeys.map ?_
  refine Program.Obeys.bind (validateAssessmentSubmission_obeys _ _ _ _ _ hlookup
    fun i a t hi hactive => asks_of_not_once rfl fun id u h => ?_) (fun _ _ _ => ?_)
    fun _ _ _ => hend _ _
  · cases h
    exact ⟨hi, Or.inr ⟨a, t, rfl, hactive, rfl⟩⟩
  refine Program.Obeys.bind (checkLimits_obeys x fun v l => hplain v (.checkLimit l) rfl) (fun _ _ _ => ?_) fun _ _ _ => hend _ _
  refine Program.Obeys.call_bind (hread _ _ (by simp)) (fun found => ?_) fun _ => hend _ _
  cases found with
  | none => exact Program.Obeys.pure (hend _ _)
  | some problem =>
    refine Program.Obeys.bind (checkPremium_obeys x problem fun v c =>
      hplain v (.checkLimit (.premium c)) rfl) (fun _ _ _ => ?_)
      fun _ _ _ => hend _ _
    refine Program.Obeys.call_bind (hread _ _ (by simp)) (fun submission => ?_) fun _ => hend _ _
    refine Program.Obeys.bind (logSubmission_obeys x problem submission hlookup
      fun w i t p title d hi => asks_of_not_once rfl fun id u h => ?_) (fun _ _ _ => ?_)
      fun _ _ _ => hend _ _
    · cases h
      exact ⟨hi, Or.inl ⟨t, p, title, d, rfl⟩⟩
    refine obeys_require (fun _ => ?_) (hend _ _)
    exact Program.Obeys.call_bind (hread _ _ (by simp)) (fun _ => Program.Obeys.pure (hend _ _))
      fun _ => hend _ _

/-! ### All operations -/

/-- **Every operation keeps to its updates.** -/
theorem program_obeys (op : Operation) :
    (attemptService.program op).Obeys attemptService.look (Asks op) (Ends op)
      attemptService.blank := by
  cases op with
  | submitAssessment i user => exact submitAssessment_obeys i user
  | getAssessmentAttemptById i user => exact getAssessmentAttemptById_obeys i user
  | addGraceTime i minutes user => exact addGraceTime_obeys i minutes user
  | raiseChallenge i reason user => exact raiseChallenge_obeys i reason user
  | resolveChallenge i status comment user => exact resolveChallenge_obeys i status comment user
  | submitSolution x => exact submitSolution_obeys x
  | wait ms =>
    exact Program.Obeys.map (Program.Obeys.call (asks_read rfl (by simp))
      (fun _ => ends_of_not_once rfl _ _) fun _ => ends_of_not_once rfl _ _)

/-! ## What a step does to the attempts -/

section Steps

variable {Init : Store → Prop} {C : AttemptConfig → Service.Action Operation Choice → Prop}
  {s s' : AttemptConfig} {act : Service.Action Operation Choice}

theorem reachable_obeys (hs : (attemptSystem Init).ReachableVia C s) :
    Service.CallsObey attemptService Asks Ends s :=
  Service.reachable_callsObey program_obeys hs

/-- An operation that updates once has done so if and only if it has returned. -/
theorem isDone_iff (hs : (attemptSystem Init).ReachableVia C s)
    {c : Service.Call Operation AttemptView Reply ServiceError Response} (hc : c ∈ s.calls)
    (honce : c.op.updatesOnce = true) : c.rest.isDone = true ↔ c.view.written ≠ [] := by
  have hobeys := reachable_obeys hs c hc
  cases hrest : c.rest with
  | done a =>
    rw [hrest] at hobeys
    obtain ⟨i, u, hu⟩ := hobeys honce
    rw [hu]
    exact ⟨fun _ => List.cons_ne_nil _ _, fun _ => rfl⟩
  | fail e =>
    rw [hrest] at hobeys
    have hnil : c.view.written = [] := hobeys honce
    exact ⟨fun h => (Bool.false_ne_true h).elim, fun h => absurd hnil h⟩
  | ask r next =>
    rw [hrest] at hobeys
    exact ⟨fun h => (Bool.false_ne_true h).elim, fun h => absurd (hobeys.1.once honce) h⟩

/-- The updates that each call has made. -/
def made (s : AttemptConfig) : List (Operation × List (ObjectId × AttemptUpdate)) :=
  s.calls.map fun c => (c.op, c.view.written)

/-- The call that is at position `i` after a step of it. -/
theorem made_set {i : ℕ} {c c' : Service.Call Operation AttemptView Reply ServiceError Response}
    {store : Store} (hi : s.calls[i]? = some c) (hop : c'.op = c.op)
    (hwritten : c'.view.written = c.view.written) :
    made ⟨store, s.calls.set i c'⟩ = made s := by
  have hmade : (made s)[i]? = some (c'.op, c'.view.written) := by
    unfold made
    rw [List.getElem?_map, hi, hop, hwritten]
    rfl
  obtain ⟨hlt, heq⟩ := List.getElem?_eq_some_iff.mp hmade
  calc made ⟨store, s.calls.set i c'⟩ = (made s).set i (c'.op, c'.view.written) := List.map_set
    _ = made s := by rw [← heq, List.set_getElem_self]

/-- **A step leaves the attempts as they are, or performs one of the updates of a
call.** -/
theorem step_updates (hs : (attemptSystem Init).ReachableVia C s)
    (h : attemptService.step s act = some s') :
    (s'.store.attempts = s.store.attempts ∧
      (made s' = made s ∨ ∃ op, made s' = made s ++ [(op, [])])) ∨
    ∃ i c op v id u next, act = .serve i c ∧
      s.calls[i]? = some ⟨op, v, .ask (.updateAttempt id u) next⟩ ∧ Writes v id u op ∧
      s'.store = s.store.updateAttempt id u ∧
      made s' = (made s).set i (op, v.written ++ [(id, u)]) := by
  obtain ⟨op, -, rfl⟩ | ⟨i, c, op, v, r, next, hact, hi, rfl⟩ := Service.step_cases h
  · exact Or.inl ⟨rfl, Or.inr ⟨op, List.map_append⟩⟩
  by_cases hr : ∀ id u, r ≠ .updateAttempt id u
  · refine Or.inl ⟨attempts_serve c s.store hr, Or.inl (made_set hi rfl ?_)⟩
    show (attemptService.hear v r (serve c s.store r).1).written = v.written
    cases (serve c s.store r).1 with
    | error e => rfl
    | ok x =>
      cases r with
      | updateAttempt id u => exact absurd rfl (hr id u)
      | _ => rfl
  · push Not at hr
    obtain ⟨id, u, rfl⟩ := hr
    rcases serve_updateAttempt c s.store id u with hserve | hserve
    · refine Or.inl ⟨?_, Or.inl (made_set hi rfl ?_)⟩
      · show (serve c s.store (.updateAttempt id u)).2.attempts = _
        rw [hserve]
      · show (attemptService.hear v _ (serve c s.store (.updateAttempt id u)).1).written = _
        rw [hserve]
        rfl
    · refine Or.inr ⟨i, c, op, v, id, u, next, hact, hi,
        ((reachable_obeys hs).request hi).writes id u rfl, ?_, ?_⟩
      · show (serve c s.store (.updateAttempt id u)).2 = _
        rw [hserve]
      · refine List.map_set.trans ?_
        show (made s).set i (op, (attemptService.hear v _
          (serve c s.store (.updateAttempt id u)).1).written) = _
        rw [hserve]
        rfl

end Steps

/-! ## A small database -/

def aliceId : ObjectId := "alice"

def alice : User := ⟨aliceId, .student, none⟩

def teacher : User := ⟨"teacher", .faculty, none⟩

/-- An attempt of an hour that nothing was done in. -/
def openAttempt : Attempt where
  id := "attempt"
  assessmentId := "exam"
  studentId := aliceId
  collegeId := none
  startedAt := .zero
  submittedAt := none
  score := .zero
  status := .active
  graceMinutes := .zero
  challenge := ⟨.none, none, none, none, none⟩
  problemOrder := []
  timeline := []

def examStore (attempt : Attempt) : Store where
  clock := .zero
  students := [⟨aliceId, none⟩]
  assessments := [⟨"exam", .ofInt 36000000, .ofInt 60, [], [], none, false⟩]
  attempts := [attempt]
  problems := []
  counts := []
  submissions := []
  usageEvents := []
  cache := []
  queue := []

/-- Serve the next request of a call. -/
def next (i : ℕ) : Service.Action Operation Choice := .serve i {}

/-- An interleaving begins. -/
def started (attempt : Attempt) : AttemptConfig := ⟨examStore attempt, []⟩

end Api
