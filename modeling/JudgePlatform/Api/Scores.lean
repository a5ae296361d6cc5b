/-
# Scores of closed attempts

The score of an attempt is a sum over its successful submissions that two of the
functions recalculate, while the judge stores its verdicts at any time.
`score_consistent` says when the score of a closed attempt is that sum.

* `ScoredStore` : the store with the problems that each score counts, a history
  variable set whenever a score is written or found to be right.
* `ScoreKept` : the condition on the steps.  It is about the verdicts that come
  while a score is recalculated or after the attempt was closed, and about the
  time-outs that are written before a recalculation, or without one.
-/
import JudgePlatform.Api.AttemptRuns
import JudgePlatform.Api.Rejudges

namespace Api

/-! ## Operations -/

inductive ScoreOperation where
  | attempt (op : Operation)
  | submission (op : SubmissionOperation)

def ScoreOperation.program (bson : GoValue → JsValue) : ScoreOperation → Task Unit
  | .attempt op => (fun _ => ()) <$> op.program
  | .submission op => (fun _ => ()) <$> op.program bson

/-- The attempt whose score an operation recalculates. -/
def ScoreOperation.recalculates : ScoreOperation → Option ObjectId
  | .attempt (.submitAssessment id _) => some id
  | .attempt (.getAssessmentAttemptById id _) => some id
  | _ => none

/-! ## Solved problems and counted problems -/

/-- A submission of an attempt on a problem. -/
def Submission.isOf (attemptId problemId : ObjectId) (d : Submission) : Bool :=
  d.attemptId = some attemptId && d.problemId = problemId

namespace Store

/-- Some submission of the attempt on the problem has a status. -/
def has (s : Store) (st : SubmissionStatus) (attemptId problemId : ObjectId) : Bool :=
  s.submissions.any fun d => d.isOf attemptId problemId && d.status = st

/-- The same without the submission `id`. -/
def hasBesides (s : Store) (id : ObjectId) (st : SubmissionStatus)
    (attemptId problemId : ObjectId) : Bool :=
  s.submissions.any fun d => d.id ≠ id && (d.isOf attemptId problemId && d.status = st)

/-- The problems that an attempt has solved. -/
def solves (s : Store) : ObjectId → ObjectId → Bool := s.has .success

/-- The problems of an attempt with a submission that waits for its verdict. -/
def awaits (s : Store) : ObjectId → ObjectId → Bool := s.has .pending

end Store

/-- The sum of the maximal scores of the solved problems. -/
def Assessment.scoreOf (x : Assessment) (solved : ObjectId → Bool) : Number :=
  x.problems.foldl
    (fun total p => if solved p.problemId then total.add p.maxScore else total) .zero

/-- The score of the attempt is the one of the given problems. -/
def Store.scores (s : Store) (id : ObjectId) (solved : ObjectId → Bool) : Bool :=
  (s.attempt id).all fun a => (s.assessment a.assessmentId).all fun x => a.score.eq (x.scoreOf solved)

/-- The store, and the problems that the score of each attempt counts. -/
structure ScoredStore where
  store : Store
  counted : ObjectId → ObjectId → Bool

namespace ScoredStore

/-- The score of an attempt counts what is solved now. -/
def recounted (s : ScoredStore) (id : ObjectId) : ObjectId → ObjectId → Bool :=
  fun i => if i = id then s.store.solves id else s.counted i

/-- A score is written, or it is right when the successful submissions are read. -/
def recount (s : ScoredStore) : Request → ObjectId → ObjectId → Bool
  | .updateAttempt id u => if u.score.isSome then s.recounted id else s.counted
  | .findSuccessful id => if s.store.scores id (s.store.solves id) then s.recounted id else s.counted
  | _ => s.counted

def serve (c : Choice) (s : ScoredStore) (r : Request) :
    Except ServiceError (Reply r) × ScoredStore :=
  match Api.serve c s.store r with
  | (.ok x, st) => (.ok x, ⟨st, s.recount r⟩)
  | (.error e, st) => (.error e, ⟨st, s.counted⟩)

end ScoredStore

/-! ## Calls -/

/-- What a recalculation has seen: the attempt that it found, how many reads of an
attempt that makes, and what was read since. -/
structure ScoreView where
  opened : ℕ := 0
  attempt : Option FoundAttempt := none
  assessment : Option (Option FoundAssessment) := none
  solved : Option (List Submission) := none
  scored : Bool := false

def ScoreView.look (v : ScoreView) : (r : Request) → Reply r → ScoreView
  | .findAttempt _ _, (found : Option FoundAttempt) =>
    { opened := v.opened + 1, attempt := found }
  | .findAssessment _ _, (found : Option FoundAssessment) =>
    { v with assessment := some found, solved := none }
  | .findSuccessful _, (found : List Submission) => { v with solved := some found }
  | .updateAttempt _ u, _ => { v with scored := v.scored || u.score.isSome }
  | _, _ => v

def scoreService (bson : GoValue → JsValue) :
    Service ScoreOperation ScoredStore Choice ScoreView Reply ServiceError Unit where
  program := ScoreOperation.program bson
  serve := ScoredStore.serve
  blank := {}
  look := ScoreView.look

abbrev ScoreCall := Service.Call ScoreOperation ScoreView Reply ServiceError Unit

abbrev ScoreConfig := Service.Config ScoreOperation ScoredStore ScoreView Reply ServiceError Unit

abbrev ScoreAction := Service.Action ScoreOperation Choice

/-- The attempt `i` has just started, if it has: no score, no submission. -/
structure Unattempted (i : ObjectId) (s : ScoredStore) : Prop where
  active : ∀ a, s.store.attempt i = some a → a.status = .active ∧ a.score = .zero
  submissions : ∀ d ∈ s.store.submissions, d.attemptId ≠ some i
  counted : ∀ p, s.counted i p = false

def scoreSystem (bson : GoValue → JsValue) (i : ObjectId) :=
  (scoreService bson).system (Unattempted i)

/-! ## What a call asks -/

/-- A recalculation has the score `total` of the attempt it found. -/
def Computes (v : ScoreView) (attempt : FoundAttempt) (total : Number) : Prop :=
  ∃ assessment submissions, v.attempt = some attempt ∧ v.assessment = some (some assessment) ∧
    v.solved = some submissions ∧
    totalScore (solvedProblemIds submissions) assessment.problems .zero = some total

/-- A recalculation has come to its end. -/
def Recalculated (v : ScoreView) : Prop :=
  v.opened = 2 ∧ (v.attempt = none ∨ v.assessment = some none ∨
    ∃ attempt total, Computes v attempt total ∧
      (attempt.doc.score.eq total = true ∨ v.scored = true))

/-- The requests of an operation that recalculates the score of `i`.  A recalculation
begins with the second read of the attempt. -/
def Rescores (i : ObjectId) (v : ScoreView) : Request → Prop
  | .findAttempt j scope => j = i ∧ (v.opened = 1 → scope = none)
  | .findAssessment j scope =>
    v.opened = 2 → scope = none ∧ ∃ attempt, v.attempt = some attempt ∧ j = attempt.assessment
  | .findSuccessful j => v.opened = 2 → ∃ attempt, v.attempt = some attempt ∧ j = attempt.doc.id
  | .updateAttempt j u =>
    j = i ∧ ((∃ t, u = timeOut t) ∨
      (v.opened = 2 ∧ ∃ attempt total, u = setScore total ∧ Computes v attempt total) ∨
      (u.score = none ∧ Recalculated v))
  | .createSubmission _ => False
  | _ => True

/-- The requests of the other operations: they write no score, and no status but that of an
attempt reopened or timed out. -/
def Request.Unscored : Request → Prop
  | .updateAttempt _ u =>
    u.score = none ∧ (u.status = none ∨ u.status = some .active ∨ ∃ t, u = timeOut t)
  | .createSubmission d => d.status = .pending
  | _ => True

/-- What every request of a call satisfies. -/
def Scores (op : ScoreOperation) (v : ScoreView) (r : Request) : Prop :=
  match op.recalculates with
  | some i => Rescores i v r
  | none => r.Unscored

theorem Request.unscored_of_plain {r : Request} (h : r.isPlain = true) : r.Unscored := by
  cases r <;> first | exact trivial | cases h

/-! ## Every call asks only this -/

section Rescoring

variable {i : ObjectId} {v : ScoreView}

/-- A request that concerns no attempt, nor what a recalculation reads. -/
theorem rescores_now : Rescores i v .now := trivial

theorem isAttemptExpired_rescores (attempt : Attempt) (assessment : Assessment) :
    (isAttemptExpired attempt assessment).Obeys ScoreView.look (Rescores i)
      (fun w _ => w = v) v :=
  Program.Obeys.call_bind rescores_now (fun _ => rfl) fun _ => rfl

/-- A recalculation ends with the score written, or found to be right. -/
theorem recalculateAttemptScore_rescores (hv : v.opened = 1) :
    (recalculateAttemptScore i).Obeys ScoreView.look (Rescores i)
      (fun w x => ∀ a, x = .ok a → Recalculated w) v := by
  have hopened : v.opened + 1 = 2 := by rw [hv]
  refine Program.Obeys.call_bind ⟨rfl, fun _ => rfl⟩ (fun found => ?_) fun _ _ h => nomatch h
  cases found with
  | none => exact fun _ _ => ⟨hopened, Or.inl rfl⟩
  | some attempt =>
    refine Program.Obeys.call_bind (fun _ => ⟨rfl, attempt, rfl, rfl⟩) (fun found => ?_)
      fun _ _ h => nomatch h
    cases found with
    | none => exact fun _ _ => ⟨hopened, Or.inr (Or.inl rfl)⟩
    | some assessment =>
      refine Program.Obeys.call_bind (fun _ => ⟨attempt, rfl, rfl⟩) (fun submissions => ?_)
        fun _ _ h => nomatch h
      cases htotal : totalScore (solvedProblemIds submissions) assessment.problems .zero with
      | none => exact fun _ h => nomatch h
      | some total =>
        have hcomputes : ∀ w : ScoreView, w.attempt = some attempt →
            w.assessment = some (some assessment) → w.solved = some submissions →
            Computes w attempt total := by
          intro w h₁ h₂ h₃
          exact ⟨assessment, submissions, h₁, h₂, h₃, htotal⟩
        show Program.Obeys _ _ _ _ (if attempt.doc.score.eq total = true then pure ()
          else do
            let _ ← ask (.updateAttempt i { score := some total })
            pure ())
        split
        · rename_i heq
          exact fun _ _ => ⟨hopened, Or.inr (Or.inr
            ⟨attempt, total, hcomputes _ rfl rfl rfl, Or.inl heq⟩)⟩
        · refine Program.Obeys.call_bind
            ⟨rfl, Or.inr (Or.inl ⟨hopened, attempt, total, rfl, hcomputes _ rfl rfl rfl⟩)⟩
            (fun _ => ?_) fun _ _ h => nomatch h
          exact fun _ _ => ⟨hopened, Or.inr (Or.inr
            ⟨attempt, total, hcomputes _ rfl rfl rfl, Or.inr rfl⟩)⟩

/-- The sequencing rule for the two operations: nothing is asked of how they end. -/
theorem rescores_bind {α β : Type} {t : Task α} {f : α → Task β}
    {Q : ScoreView → Except ServiceError α → Prop}
    (ht : t.Obeys ScoreView.look (Rescores i) Q v)
    (hf : ∀ w a, Q w (.ok a) →
      (f a).Obeys ScoreView.look (Rescores i) (fun _ _ => True) w) :
    (t >>= f).Obeys ScoreView.look (Rescores i) (fun _ _ => True) v :=
  Program.Obeys.bind ht hf fun _ _ _ => trivial

theorem rescores_demand {α β : Type} {x : Option α} {e : ServiceError} {f : α → Task β}
    (hf : ∀ a, (f a).Obeys ScoreView.look (Rescores i) (fun _ _ => True) v) :
    (demand x e >>= f).Obeys ScoreView.look (Rescores i) (fun _ _ => True) v := by
  cases x with
  | some a => exact hf a
  | none => exact trivial

theorem rescores_require {β : Type} {c : Prop} [Decidable c] {e : ServiceError}
    {f : Unit → Task β} (hf : (f ()).Obeys ScoreView.look (Rescores i) (fun _ _ => True) v) :
    (require c e >>= f).Obeys ScoreView.look (Rescores i) (fun _ _ => True) v := by
  unfold require
  split
  · exact hf
  · exact trivial

/-- An attempt is closed by an update without a score, after its recalculation. -/
theorem rescores_close {u : AttemptUpdate} (hu : u.score = none) (hv : Recalculated v) :
    Rescores i v (.updateAttempt i u) :=
  ⟨rfl, Or.inr (Or.inr ⟨hu, hv⟩)⟩

theorem submitAssessment_rescores (user : User) :
    (submitAssessment i user).Obeys ScoreView.look (Rescores i) (fun _ _ => True) {} := by
  refine Program.Obeys.call_bind ⟨rfl, fun h => nomatch h⟩ (fun found => ?_) fun _ => trivial
  refine rescores_demand fun attempt => ?_
  refine Program.Obeys.call_bind (fun h => nomatch h) (fun found' => ?_) fun _ => trivial
  refine rescores_demand fun assessment => ?_
  refine rescores_demand fun studentId => ?_
  refine rescores_require ?_
  by_cases hactive : attempt.doc.status = .active
  · rw [if_neg (by simpa using hactive)]
    refine rescores_bind (isAttemptExpired_rescores _ _) fun w expired hw => ?_
    subst hw
    cases expired with
    | true =>
      refine rescores_bind (recalculateAttemptScore_rescores rfl) fun w _ hw => ?_
      exact Program.Obeys.call (rescores_close rfl (hw _ rfl)) (fun _ => trivial) fun _ => trivial
    | false =>
      refine rescores_bind (recalculateAttemptScore_rescores rfl) fun w _ hw => ?_
      refine Program.Obeys.call_bind rescores_now (fun t => ?_) fun _ => trivial
      refine Program.Obeys.call_bind rescores_now (fun t' => ?_) fun _ => trivial
      refine Program.Obeys.call_bind (rescores_close rfl (hw _ rfl)) (fun result => ?_)
        fun _ => trivial
      exact rescores_demand fun _ => trivial
  · rw [if_pos hactive]
    exact trivial

/-- The time-out of a read comes before the recalculation. -/
theorem timeOutExpired_rescores (hv : v.opened = 1) (attempt : Attempt) (assessment : Assessment) :
    (timeOutExpired i attempt assessment).Obeys ScoreView.look (Rescores i)
      (fun w _ => w.opened = 1) v := by
  unfold timeOutExpired
  split
  · refine Program.Obeys.bind (isAttemptExpired_rescores _ _) (fun w expired hw => ?_)
      fun w e hw => hw ▸ hv
    subst hw
    cases expired with
    | true => exact Program.Obeys.call_bind ⟨rfl, Or.inl ⟨_, rfl⟩⟩ (fun _ => hv) fun _ => hv
    | false => exact hv
  · exact hv

theorem getAssessmentAttemptById_rescores (user : User) :
    (getAssessmentAttemptById i user).Obeys ScoreView.look (Rescores i) (fun _ _ => True) {} := by
  refine Program.Obeys.call_bind ⟨rfl, fun h => nomatch h⟩ (fun found => ?_) fun _ => trivial
  cases found with
  | none => exact trivial
  | some attempt =>
    refine Program.Obeys.call_bind (fun h => nomatch h) (fun found => ?_) fun _ => trivial
    cases found with
    | none => exact trivial
    | some assessment =>
      refine rescores_bind (timeOutExpired_rescores rfl _ _) fun w _ hw => ?_
      refine rescores_bind (recalculateAttemptScore_rescores hw) fun w _ hw => ?_
      refine Program.Obeys.call_bind ⟨rfl, fun _ => rfl⟩ (fun final => ?_) fun _ => trivial
      refine rescores_demand fun final => ?_
      refine rescores_demand fun studentId => ?_
      refine rescores_require ?_
      split
      · exact trivial
      · exact rescores_demand fun _ => trivial

end Rescoring

/-! ### The other operations -/

/-- An operation that updates once, and writes neither a status nor a score. -/
theorem unscored_update {v : AttemptView} {id : ObjectId} {u : AttemptUpdate}
    (hu : Request.Unscored (.updateAttempt id u)) :
    (ask (.updateAttempt id u)).Obeys AttemptView.look (fun _ r => r.Unscored)
      (fun _ _ => True) v :=
  Program.Obeys.call hu (fun _ => trivial) fun _ => trivial

theorem submitSolution_unscored (x : Solution) :
    (submitSolution x).Obeys AttemptView.look (fun _ r => r.Unscored) (fun _ _ => True) {} := by
  have hread : ∀ (w : AttemptView) (r : Request), r.isPlain = true → r.Unscored :=
    fun _ _ => Request.unscored_of_plain
  have hlookup : ∀ (w : AttemptView) (r : Request), r.isLookup = true → r.Unscored :=
    fun w r hr => hread w r (Request.isPlain_of_isLookup hr)
  refine Program.Obeys.bind (validateAssessmentSubmission_obeys _ _ _ _ _ hlookup
    fun i a t _ _ => ⟨rfl, Or.inr (Or.inr ⟨t, rfl⟩)⟩) (fun _ _ _ => ?_) fun _ _ _ => trivial
  refine Program.Obeys.bind (checkLimits_obeys x fun _ _ => trivial) (fun _ _ _ => ?_) fun _ _ _ => trivial
  refine Program.Obeys.call_bind trivial (fun found => ?_) fun _ => trivial
  cases found with
  | none => exact trivial
  | some problem =>
    refine Program.Obeys.bind (checkPremium_obeys x problem fun _ _ => trivial) (fun _ _ _ => ?_)
      fun _ _ _ => trivial
    refine Program.Obeys.call_bind rfl (fun submission => ?_) fun _ => trivial
    refine Program.Obeys.bind (logSubmission_obeys x problem submission hlookup
      fun w i t p title d _ => ⟨rfl, Or.inl rfl⟩) (fun _ _ _ => ?_) fun _ _ _ => trivial
    refine obeys_require (fun _ => ?_) trivial
    exact Program.Obeys.call_bind trivial (fun _ => trivial) fun _ => trivial

theorem attempt_unscored (op : Operation) (hop : (ScoreOperation.attempt op).recalculates = none) :
    op.program.Obeys AttemptView.look (fun _ r => r.Unscored) (fun _ _ => True) {} := by
  cases op with
  | submitAssessment i user => cases hop
  | getAssessmentAttemptById i user => cases hop
  | addGraceTime i minutes user =>
    refine Program.Obeys.map (obeys_require (fun _ => ?_) trivial)
    refine obeys_open trivial (fun attempt => ?_) fun _ => trivial
    refine Program.Obeys.call_bind trivial (fun t => ?_) fun _ => trivial
    refine unscored_update ⟨rfl, ?_⟩
    unfold addGrace
    by_cases hreopen : attempt.doc.status = .timedOut
    · exact Or.inr (Or.inl (if_pos (decide_eq_true hreopen)))
    · exact Or.inl (if_neg (by simpa using hreopen))
  | raiseChallenge i reason user =>
    refine Program.Obeys.map (obeys_open trivial (fun attempt => ?_) fun _ => trivial)
    refine obeys_demand (fun studentId _ => ?_) trivial
    refine obeys_require (fun _ => ?_) trivial
    refine obeys_require (fun _ => ?_) trivial
    refine obeys_require (fun _ => ?_) trivial
    refine Program.Obeys.call_bind trivial (fun t => ?_) fun _ => trivial
    refine Program.Obeys.call_bind trivial (fun t' => ?_) fun _ => trivial
    exact unscored_update ⟨rfl, Or.inl rfl⟩
  | resolveChallenge i status comment user =>
    refine Program.Obeys.map (obeys_open trivial (fun attempt => ?_) fun _ => trivial)
    refine obeys_require (fun _ => ?_) trivial
    refine obeys_demand (fun decision _ => ?_) trivial
    refine Program.Obeys.call_bind trivial (fun t => ?_) fun _ => trivial
    refine Program.Obeys.call_bind trivial (fun t' => ?_) fun _ => trivial
    exact unscored_update ⟨rfl, Or.inl rfl⟩
  | submitSolution x => exact Program.Obeys.map (submitSolution_unscored x)
  | wait ms =>
    exact Program.Obeys.map (Program.Obeys.call trivial (fun _ => trivial) fun _ => trivial)

/-- **Every operation asks only what it may.** -/
theorem score_obeys (bson : GoValue → JsValue) (op : ScoreOperation) :
    ((scoreService bson).program op).Obeys (scoreService bson).look (Scores op)
      (fun _ _ => True) (scoreService bson).blank := by
  -- the operations without a recalculation
  have hunscored : op.recalculates = none →
      (op.program bson).Obeys ScoreView.look (fun _ r => r.Unscored) (fun _ _ => True) {} := by
    intro hop
    cases op with
    | attempt op =>
      exact Program.Obeys.map ((attempt_unscored op hop).forget (fun _ _ h => h) _)
    | submission op =>
      have hobeys := op.obeys bson (P := fun _ r => r.Unscored)
        (fun _ _ => Request.unscored_of_plain) fun _ _ _ _ => trivial
      exact Program.Obeys.map (hobeys.forget (fun _ _ h => h) _)
  cases hop : op.recalculates with
  | none =>
    refine Program.Obeys.mono (hunscored hop) (fun w r hr => ?_) fun _ _ h => h
    unfold Scores
    rw [hop]
    exact hr
  | some i =>
    have hscores : ∀ (w : ScoreView) (r : Request), Rescores i w r → Scores op w r := by
      intro w r hr
      unfold Scores
      rw [hop]
      exact hr
    cases op with
    | submission op => cases hop
    | attempt op =>
      cases op with
      | submitAssessment j user =>
        cases hop
        exact (Program.Obeys.map (Program.Obeys.map (submitAssessment_rescores user))).mono hscores
          fun _ _ h => h
      | getAssessmentAttemptById j user =>
        cases hop
        exact (Program.Obeys.map (Program.Obeys.map (getAssessmentAttemptById_rescores user))).mono
          hscores fun _ _ h => h
      | _ => cases hop

/-! ## The condition on the steps -/

/-- The submission whose status a request sets, and that status. -/
def Request.settles : Request → Option (ObjectId × SubmissionStatus)
  | .storeResult id st _ _ => some (id, st)
  | .storeFailure id _ => some (id, .error)
  | .resetSubmission id => some (id, .pending)
  | _ => none

/-- The call has read the attempt for a recalculation, and has not ended or read it again. -/
def Rescoring (i : ObjectId) (c : ScoreCall) : Prop :=
  c.op.recalculates = some i ∧ c.view.opened = 2 ∧ c.rest.pending.isSome = true

def Closed (s : Store) (i : ObjectId) : Prop := ∃ a, s.attempt i = some a ∧ a.status ≠ .active

/-- With the status, the problem of the submission is solved if and only if it was before. -/
def KeepsSolved (s : Store) (i id : ObjectId) (st : SubmissionStatus) : Prop :=
  ∀ d ∈ s.submissions, d.id = id → d.attemptId = some i →
    s.hasBesides id .success i d.problemId = true ∨ (d.status = .success ↔ st = .success)

/-- With the status, the problem of the submission is solved if and only if the score
counts it, or another verdict on it is still to come. -/
def LeavesCounted (s : ScoredStore) (i id : ObjectId) (st : SubmissionStatus) : Prop :=
  ∀ d ∈ s.store.submissions, d.id = id → d.attemptId = some i →
    s.store.hasBesides id .pending i d.problemId = true ∨
      ((st = .success ∨ s.store.hasBesides id .success i d.problemId = true) ↔
        s.counted i d.problemId = true)

/-- The score counts the problems that are solved, but for those with a verdict to come. -/
def UpToDate (s : ScoredStore) (i : ObjectId) : Prop :=
  ∀ p, s.store.awaits i p = true ∨ s.store.solves i p = s.counted i p

/-- **The condition on the steps.**
* While the score of the attempt is recalculated, no verdict and no rejudge changes which
  problems it has solved.
* A verdict on a closed attempt leaves its problem solved if and only if the score counts it,
  unless another one on that problem is still to come.
* The time-out that no recalculation precedes finds the score up to date. -/
def ScoreKept (i : ObjectId) (s : ScoreConfig) : ScoreAction → Prop
  | .start _ => True
  | .serve n _ => ∀ op v r next, s.calls[n]? = some ⟨op, v, .ask r next⟩ →
    (∀ id st, r.settles = some (id, st) →
      ((∃ c ∈ s.calls, Rescoring i c) → KeepsSolved s.store.store i id st) ∧
      (st ≠ .pending → Closed s.store.store i → LeavesCounted s.store i id st)) ∧
    ∀ t, r = .updateAttempt i (timeOut t) → UpToDate s.store i

/-! ## What a verdict changes -/

section Verdicts

variable {s : Store} {id i : ObjectId} {st st' : SubmissionStatus} {p : ObjectId}
  {f : Submission → Submission}

variable (id) in
theorem has_iff : s.has st i p = true ↔ s.hasBesides id st i p = true ∨
    ∃ d ∈ s.submissions, d.id = id ∧ d.isOf i p = true ∧ d.status = st := by
  simp only [Store.has, Store.hasBesides, List.any_eq_true, Bool.and_eq_true, decide_eq_true_eq]
  constructor
  · rintro ⟨d, hd, hof, hst⟩
    by_cases hid : d.id = id
    · exact Or.inr ⟨d, hd, hid, hof, hst⟩
    · exact Or.inl ⟨d, hd, hid, hof, hst⟩
  · rintro (⟨d, hd, -, hof, hst⟩ | ⟨d, hd, -, hof, hst⟩)
    · exact ⟨d, hd, hof, hst⟩
    · exact ⟨d, hd, hof, hst⟩

/-- An update that sets a status and keeps what a submission is of. -/
structure Settles (f : Submission → Submission) (st : SubmissionStatus) : Prop where
  id : ∀ d, (f d).id = d.id
  isOf : ∀ d i p, (f d).isOf i p = d.isOf i p
  status : ∀ d, (f d).status = st

theorem has_settled (hf : Settles f st') : (s.updateSubmission id f).has st i p = true ↔
    s.hasBesides id st i p = true ∨
      st' = st ∧ ∃ d ∈ s.submissions, d.id = id ∧ d.isOf i p = true := by
  simp only [Store.has, Store.hasBesides, Store.updateSubmission, updateDoc, List.any_map,
    List.any_eq_true, Function.comp, Bool.and_eq_true, decide_eq_true_eq]
  constructor
  · rintro ⟨d, hd, hof, hst⟩
    by_cases hid : d.id = id
    · rw [if_pos hid] at hof hst
      rw [hf.isOf] at hof
      rw [hf.status] at hst
      exact Or.inr ⟨hst, d, hd, hid, hof⟩
    · rw [if_neg hid] at hof hst
      exact Or.inl ⟨d, hd, hid, hof, hst⟩
  · rintro (⟨d, hd, hid, hof, hst⟩ | ⟨hst, d, hd, hid, hof⟩)
    · refine ⟨d, hd, ?_⟩
      rw [if_neg hid]
      exact ⟨hof, hst⟩
    · refine ⟨d, hd, ?_⟩
      rw [if_pos hid, hf.isOf, hf.status]
      exact ⟨hof, hst⟩

theorem isOf_iff {d : Submission} :
    d.isOf i p = true ↔ d.attemptId = some i ∧ d.problemId = p := by
  unfold Submission.isOf
  rw [Bool.and_eq_true, decide_eq_true_eq, decide_eq_true_eq]

theorem solves_settled (hf : Settles f st) (hkeeps : KeepsSolved s i id st) :
    (s.updateSubmission id f).solves i = s.solves i := by
  funext p
  show (s.updateSubmission id f).has .success i p = s.has .success i p
  rw [Bool.eq_iff_iff, has_settled hf, has_iff id]
  constructor
  · rintro (h | ⟨hst, d, hd, hid, hof⟩)
    · exact Or.inl h
    · obtain ⟨hattempt, rfl⟩ := isOf_iff.mp hof
      rcases hkeeps d hd hid hattempt with hbesides | hiff
      · exact Or.inl hbesides
      · exact Or.inr ⟨d, hd, hid, hof, hiff.mpr hst⟩
  · rintro (h | ⟨d, hd, hid, hof, hst⟩)
    · exact Or.inl h
    · obtain ⟨hattempt, rfl⟩ := isOf_iff.mp hof
      rcases hkeeps d hd hid hattempt with hbesides | hiff
      · exact Or.inl hbesides
      · exact Or.inr ⟨hiff.mp hst, d, hd, hid, hof⟩

theorem UpToDate.settled {counted : ObjectId → ObjectId → Bool} (h : UpToDate ⟨s, counted⟩ i)
    (hf : Settles f st) (hst : st ≠ .pending → LeavesCounted ⟨s, counted⟩ i id st) :
    UpToDate ⟨s.updateSubmission id f, counted⟩ i := by
  intro p
  show (s.updateSubmission id f).has .pending i p = true ∨
    (s.updateSubmission id f).has .success i p = counted i p
  by_cases hmem : ∃ d ∈ s.submissions, d.id = id ∧ d.isOf i p = true
  · by_cases hpending : st = .pending
    · exact Or.inl ((has_settled hf).mpr (Or.inr ⟨hpending, hmem⟩))
    · obtain ⟨d, hd, hid, hof⟩ := hmem
      obtain ⟨hattempt, hproblem⟩ := isOf_iff.mp hof
      have hleaves := hst hpending d hd hid hattempt
      rw [hproblem] at hleaves
      rcases hleaves with hbesides | hiff
      · exact Or.inl ((has_settled hf).mpr (Or.inl hbesides))
      · refine Or.inr ?_
        rw [Bool.eq_iff_iff, has_settled hf, ← hiff]
        constructor
        · rintro (h | ⟨h, -⟩)
          · exact Or.inr h
          · exact Or.inl h
        · rintro (h | h)
          · exact Or.inr ⟨h, d, hd, hid, hof⟩
          · exact Or.inl h
  · -- no submission on this problem changes
    have hsame : ∀ st, (s.updateSubmission id f).has st i p = s.has st i p := by
      intro st
      rw [Bool.eq_iff_iff, has_settled hf, has_iff id]
      constructor
      · rintro (h | ⟨-, h⟩)
        · exact Or.inl h
        · exact absurd h hmem
      · rintro (h | ⟨d, hd, hid, hof, -⟩)
        · exact Or.inl h
        · exact absurd ⟨d, hd, hid, hof⟩ hmem
    rw [hsame, hsame]
    exact h p

end Verdicts

/-! ## What a request changes -/

/-- The collections that a score depends on are the same. -/
structure SameRecords (s s' : Store) : Prop where
  attempts : s'.attempts = s.attempts
  assessments : s'.assessments = s.assessments
  problems : s'.problems = s.problems
  submissions : s'.submissions = s.submissions

/-- What an answered request changes. -/
inductive Changes (s : Store) : Request → Store → Prop
  | updated {id : ObjectId} {u : AttemptUpdate} (hcast : u.failsCast = false) :
    Changes s (.updateAttempt id u) (s.updateAttempt id u)
  | created {d : Submission} {id : ObjectId} : Changes s (.createSubmission d)
      { s with submissions := s.submissions ++ [{ d with id := id }] }
  | settled {r : Request} {id : ObjectId} {st : SubmissionStatus} {f : Submission → Submission}
    (hr : r.settles = some (id, st)) (hf : Settles f st) : Changes s r (s.updateSubmission id f)
  | other {r : Request} {s' : Store} (hupdate : ∀ id u, r ≠ .updateAttempt id u)
    (hs : SameRecords s s') : Changes s r s'

theorem answer_changes {c : Choice} {s st : Store} {r : Request} {x : Reply r}
    (h : answer c s r = (.ok x, st)) : Changes s r st := by
  cases r with
  | updateAttempt id u =>
    simp only [answer] at h
    split at h
    · cases h
    · rename_i hcast
      cases h
      exact .updated (Bool.not_eq_true _ ▸ hcast)
  | createSubmission d =>
    simp only [answer] at h
    split at h
    · cases h
    · cases h
      exact .created
  | resetSubmission id =>
    cases h
    exact .settled rfl ⟨fun _ => rfl, fun _ _ _ => rfl, fun _ => rfl⟩
  | storeResult id st output result =>
    cases h
    exact .settled rfl ⟨fun _ => rfl, fun _ _ _ => rfl, fun _ => rfl⟩
  | storeFailure id reason =>
    cases h
    exact .settled rfl ⟨fun _ => rfl, fun _ _ _ => rfl, fun _ => rfl⟩
  | _ =>
    cases h
    exact .other (fun _ _ h => by cases h) ⟨rfl, rfl, rfl, rfl⟩

theorem ScoredStore.serve_cases (c : Choice) (s : ScoredStore) (r : Request) :
    (∃ e, s.serve c r = (.error e, s)) ∨
      ∃ x st, s.serve c r = (.ok x, ⟨st, s.recount r⟩) ∧ answer c s.store r = (.ok x, st) := by
  unfold ScoredStore.serve
  rcases hserve : Api.serve c s.store r with ⟨e | x, st⟩
  · have hst : (Api.serve c s.store r).2 = s.store :=
      serve_error (e := e) (by rw [hserve])
    rw [hserve] at hst
    refine Or.inl ⟨e, ?_⟩
    show (Except.error e, ScoredStore.mk st s.counted) = _
    rw [show st = s.store from hst]
  · refine Or.inr ⟨x, st, rfl, ?_⟩
    unfold Api.serve at hserve
    split at hserve
    · cases hserve
    · exact hserve

theorem ScoredStore.recounted_self (s : ScoredStore) (id : ObjectId) :
    s.recounted id id = s.store.solves id := if_pos rfl

theorem ScoredStore.recount_scored (s : ScoredStore) (id : ObjectId) {u : AttemptUpdate}
    {total : Number} (hu : u.score = some total) :
    s.recount (.updateAttempt id u) = s.recounted id :=
  if_pos (by rw [hu]; rfl)

theorem ScoredStore.recount_unscored (s : ScoredStore) (id : ObjectId) {u : AttemptUpdate}
    (hu : u.score = none) : s.recount (.updateAttempt id u) = s.counted :=
  if_neg (by rw [hu]; exact Bool.false_ne_true)

/-- The score of an attempt counts what it did, or what is solved now. -/
theorem ScoredStore.recount_cases (s : ScoredStore) (r : Request) (i : ObjectId) :
    s.recount r i = s.counted i ∨ s.recount r i = s.store.solves i := by
  have hrecounted : ∀ id, s.recounted id i = s.counted i ∨ s.recounted id i = s.store.solves i := by
    intro id
    unfold ScoredStore.recounted
    split
    · rename_i hid
      rw [hid]
      exact Or.inr rfl
    · exact Or.inl rfl
  unfold ScoredStore.recount
  split
  · split
    · exact hrecounted _
    · exact Or.inl rfl
  · split
    · exact hrecounted _
    · exact Or.inl rfl
  · exact Or.inl rfl

/-! ## The invariant -/

/-- The attempt refers to no stored assessment. -/
def Unassessed (s : Store) (i : ObjectId) : Prop :=
  ∀ a, s.attempt i = some a → s.assessment a.assessmentId = none

/-- What a recalculation has seen is so still, but for a score that counts what is solved. -/
structure Seen (i : ObjectId) (s : ScoredStore) (v : ScoreView) : Prop where
  missing : v.attempt = none → s.store.attempt i = none
  found : ∀ f, v.attempt = some f → ∃ a, s.store.attempt i = some a ∧ f.doc.id = i ∧
    f.assessment = (s.store.assessment a.assessmentId).map Assessment.id ∧
    (f.doc.score = a.score ∨ s.counted i = s.store.solves i)
  assessment : ∀ x a, v.assessment = some x → s.store.attempt i = some a →
    x = (s.store.assessment a.assessmentId).map s.store.populateAssessment
  solved : ∀ ds, v.solved = some ds → solvedProblemIds ds = s.store.solves i

/-- A score that the recalculation has written, or found to be right, counts what is solved. -/
structure Progress (i : ObjectId) (s : ScoredStore) (v : ScoreView) : Prop extends Seen i s v where
  scored : v.scored = true → s.counted i = s.store.solves i
  right : ∀ f total, Computes v f total → f.doc.score.eq total = true →
    s.counted i = s.store.solves i

structure ScoreInv (i : ObjectId) (s : ScoreConfig) : Prop where
  scores : s.store.store.scores i (s.store.counted i) = true
  closed : Closed s.store.store i → Unassessed s.store.store i ∨ UpToDate s.store i
  progress : ∀ c ∈ s.calls, Rescoring i c → Progress i s.store c.view

/-! ### The score of a recalculation -/

theorem totalScore_populate (s : Store) (solved : ObjectId → Bool) (ps : List AssessmentProblem)
    {start total : Number}
    (h : totalScore solved
      (ps.map fun p => ((s.problem p.problemId).map Problem.id, p.maxScore)) start = some total) :
    ps.foldl (fun total p => if solved p.problemId then total.add p.maxScore else total) start =
      total := by
  induction ps generalizing start with
  | nil => exact Option.some.inj h
  | cons p ps ih =>
    rw [List.map_cons] at h
    cases hp : s.problem p.problemId with
    | none =>
      rw [hp] at h
      cases h
    | some problem =>
      rw [hp, Option.map_some, totalScore, findDoc_key Problem.id hp] at h
      exact ih h

/-- What a recalculation computes is the score of the problems that are solved now. -/
theorem Seen.total {i : ObjectId} {s : ScoredStore} {v : ScoreView} (h : Seen i s v)
    {f : FoundAttempt} {total : Number} (hcomputes : Computes v f total) :
    ∃ a x, s.store.attempt i = some a ∧ s.store.assessment a.assessmentId = some x ∧
      total = x.scoreOf (s.store.solves i) := by
  obtain ⟨found, ds, hf, hfound, hds, htotal⟩ := hcomputes
  obtain ⟨a, ha, -, -, -⟩ := h.found f hf
  have hpopulated := h.assessment _ a hfound ha
  cases hx : s.store.assessment a.assessmentId with
  | none =>
    rw [hx] at hpopulated
    cases hpopulated
  | some x =>
    rw [hx, Option.map_some, Option.some.injEq] at hpopulated
    refine ⟨a, x, ha, hx, ?_⟩
    rw [hpopulated, h.solved ds hds] at htotal
    exact (totalScore_populate s.store _ x.problems htotal).symm

/-- At its end, the score counts what is solved. -/
theorem Progress.recalculated {i : ObjectId} {s : ScoredStore} {v : ScoreView}
    (h : Progress i s v) (hv : Recalculated v) :
    s.store.attempt i = none ∨ Unassessed s.store i ∨ s.counted i = s.store.solves i := by
  obtain ⟨-, hnone | hnone | ⟨f, total, hcomputes, heq | hscored⟩⟩ := hv
  · exact Or.inl (h.missing hnone)
  · refine Or.inr (Or.inl fun a ha => ?_)
    exact Option.map_eq_none_iff.mp (h.assessment none a hnone ha).symm
  · exact Or.inr (Or.inr (h.right f total hcomputes heq))
  · exact Or.inr (Or.inr (h.scored hscored))

/-! ### What other steps leave of it -/

/-- A step of which a recalculation need not know. -/
structure Follows (i : ObjectId) (s s' : ScoredStore) : Prop where
  solves : s'.store.solves i = s.store.solves i
  assessments : s'.store.assessments = s.store.assessments
  problems : s'.store.problems = s.store.problems
  missing : s.store.attempt i = none → s'.store.attempt i = none
  attempt : ∀ a, s.store.attempt i = some a → ∃ a', s'.store.attempt i = some a' ∧
    a'.assessmentId = a.assessmentId ∧ (a'.score = a.score ∨ s'.counted i = s'.store.solves i)
  counted : s'.counted i = s.counted i ∨ s'.counted i = s'.store.solves i

theorem populateAssessment_congr {s s' : Store} (h : s'.problems = s.problems) :
    s'.populateAssessment = s.populateAssessment := by
  funext x
  unfold Store.populateAssessment Store.problem
  rw [h]

theorem Progress.follow {i : ObjectId} {s s' : ScoredStore} {v : ScoreView}
    (h : Progress i s v) (hs : Follows i s s') : Progress i s' v := by
  have hassessment : s'.store.assessment = s.store.assessment := by
    funext id
    unfold Store.assessment
    rw [hs.assessments]
  have hcounted : s.counted i = s.store.solves i → s'.counted i = s'.store.solves i := by
    intro heq
    rcases hs.counted with hsame | hnow
    · rw [hsame, heq, hs.solves]
    · exact hnow
  refine ⟨⟨fun hv => hs.missing (h.missing hv), fun f hf => ?_, fun x a' hx ha' => ?_,
    fun ds hds => ?_⟩, fun hv => hcounted (h.scored hv),
    fun f total hc heq => hcounted (h.right f total hc heq)⟩
  · obtain ⟨a, ha, hid, hassess, hscore⟩ := h.found f hf
    obtain ⟨a', ha', hsame, hscore'⟩ := hs.attempt a ha
    refine ⟨a', ha', hid, by rw [hassessment, hsame]; exact hassess, ?_⟩
    rcases hscore' with hscore' | hnow
    · rcases hscore with hscore | heq
      · exact Or.inl (hscore.trans hscore'.symm)
      · exact Or.inr (hcounted heq)
    · exact Or.inr hnow
  · cases ha : s.store.attempt i with
    | none =>
      rw [hs.missing ha] at ha'
      cases ha'
    | some a =>
      obtain ⟨b, hb, hsame, -⟩ := hs.attempt a ha
      rw [hb, Option.some.injEq] at ha'
      rw [hassessment, populateAssessment_congr hs.problems, ← ha', hsame]
      exact h.assessment x a hx ha
  · rw [hs.solves]
    exact h.solved ds hds

/-- **No request disturbs a recalculation** that changes no solved problem. -/
theorem follows_change {i : ObjectId} {s : ScoredStore} {r : Request} {st : Store}
    (h : Changes s.store r st) (hcreate : ∀ d, r = .createSubmission d → d.status = .pending)
    (hkeeps : ∀ id status, r.settles = some (id, status) → KeepsSolved s.store i id status) :
    Follows i s ⟨st, s.recount r⟩ := by
  have hrecount := s.recount_cases r i
  cases h with
  | @updated id u hcast =>
    refine ⟨rfl, rfl, rfl, fun hnone => ?_, fun a ha => ?_, hrecount⟩
    · show (s.store.updateAttempt id u).attempt i = none
      rw [attempt_updateAttempt, hnone]
      split <;> rfl
    · by_cases hi : i = id
      · refine ⟨u.apply a, ?_, rfl, ?_⟩
        · show (s.store.updateAttempt id u).attempt i = _
          rw [attempt_updateAttempt, if_pos hi, ha]
          rfl
        · cases hscore : u.score with
          | none =>
            refine Or.inl ?_
            show u.score.getD a.score = a.score
            rw [hscore]
            rfl
          | some total =>
            refine Or.inr ?_
            show s.recount (.updateAttempt id u) i = s.store.solves i
            rw [s.recount_scored id hscore, hi, s.recounted_self]
      · refine ⟨a, ?_, rfl, Or.inl rfl⟩
        show (s.store.updateAttempt id u).attempt i = _
        rw [attempt_updateAttempt, if_neg hi]
        exact ha
  | @created d id =>
    have hsolves : Store.solves { s.store with
        submissions := s.store.submissions ++ [{ d with id := id }] } i = s.store.solves i := by
      funext p
      show List.any _ _ = List.any _ _
      rw [List.any_append]
      simp [hcreate d rfl]
    exact ⟨hsolves, rfl, rfl, fun hnone => hnone, fun a ha => ⟨a, ha, rfl, Or.inl rfl⟩,
      Or.inl rfl⟩
  | @settled _ id status f hr hf =>
    have hsame : s.recount r = s.counted := by
      cases r <;> first | rfl | cases hr
    have hsolves := solves_settled hf (hkeeps id status hr)
    refine ⟨hsolves, rfl, rfl, fun hnone => hnone, fun a ha => ⟨a, ha, rfl, Or.inl rfl⟩, Or.inl ?_⟩
    show s.recount r i = s.counted i
    rw [hsame]
  | other hupdate hs =>
    have hattempt : st.attempt = s.store.attempt := by
      funext id
      unfold Store.attempt
      rw [hs.attempts]
    have hsolves : st.solves i = s.store.solves i := by
      unfold Store.solves Store.has
      rw [hs.submissions]
    refine ⟨hsolves, hs.assessments, hs.problems, fun hnone => by rw [hattempt]; exact hnone,
      fun a ha => ⟨a, by rw [hattempt]; exact ha, rfl, Or.inl rfl⟩, ?_⟩
    show s.recount r i = s.counted i ∨ s.recount r i = st.solves i
    rw [hsolves]
    exact hrecount

/-! ### What a recalculation sees -/

section Reads

variable {i : ObjectId} {s s' : ScoredStore} {v : ScoreView}

/-- It begins with the attempt as it is stored. -/
theorem Progress.begin (s : ScoredStore) (i : ObjectId) (n : ℕ) :
    Progress i s { opened := n, attempt := (s.store.attempt i).map s.store.populateAttempt } := by
  refine ⟨⟨fun h => Option.map_eq_none_iff.mp h, fun f hf => ?_, fun _ _ h => ?_, fun _ h => ?_⟩,
    fun h => ?_, ?_⟩
  · obtain ⟨a, ha, rfl⟩ := Option.map_eq_some_iff.mp hf
    exact ⟨a, ha, findDoc_key Attempt.id ha, rfl, Or.inl rfl⟩
  · cases h
  · cases h
  · cases h
  · rintro f total ⟨_, _, _, h, -⟩
    cases h

theorem Progress.findAssessment (h : Progress i s v) {f : FoundAttempt} (hf : v.attempt = some f) :
    Progress i s { v with
      assessment := some ((f.assessment.bind s.store.assessment).map s.store.populateAssessment)
      solved := none } := by
  refine ⟨⟨h.missing, h.found, fun x a hx ha => ?_, fun _ h => nomatch h⟩, h.scored, ?_⟩
  · obtain ⟨b, hb, -, hassess, -⟩ := h.found f hf
    obtain rfl : b = a := Option.some.inj (hb.symm.trans ha)
    rw [← Option.some.inj hx, hassess]
    cases hx : s.store.assessment b.assessmentId with
    | none => rfl
    | some x =>
      have hid : x.id = b.assessmentId := findDoc_key Assessment.id hx
      rw [Option.map_some, Option.bind_some, hid, hx]
  · rintro f total ⟨_, _, _, _, h, -⟩
    cases h

theorem solvedProblemIds_filter (s : Store) (i : ObjectId) :
    solvedProblemIds (s.submissions.filter fun d => d.attemptId = some i ∧ d.status = .success) =
      s.solves i := by
  funext p
  unfold solvedProblemIds Store.solves Store.has Submission.isOf
  rw [List.any_filter]
  congr 1
  funext d
  by_cases hattempt : d.attemptId = some i
  · by_cases hstatus : d.status = .success
    · simp [hattempt, hstatus]
    · simp [hstatus]
  · simp [hattempt]

/-- The successful submissions are read: a score that agrees with them counts them. -/
theorem Progress.findSuccessful (h : Progress i s v) {f : FoundAttempt} (hf : v.attempt = some f)
    (hs : s'.store = s.store) (hcounted : s'.counted = s.recount (.findSuccessful f.doc.id)) :
    Progress i s' { v with
      solved := some (s.store.submissions.filter fun d =>
        d.attemptId = some f.doc.id ∧ d.status = .success) } := by
  obtain ⟨a, ha, hid, -, hscore⟩ := h.found f hf
  have hfollow : Follows i s s' := by
    refine ⟨by rw [hs], by rw [hs], by rw [hs], fun hnone => by rw [hs]; exact hnone,
      fun a ha => ⟨a, by rw [hs]; exact ha, rfl, Or.inl rfl⟩, ?_⟩
    rw [hcounted, hs]
    exact s.recount_cases _ i
  have h' := h.follow hfollow
  have hseen : Seen i s' { v with
      solved := some (s.store.submissions.filter fun d =>
        d.attemptId = some f.doc.id ∧ d.status = .success) } := by
    refine ⟨h'.missing, h'.found, h'.assessment, fun ds hds => ?_⟩
    rw [← Option.some.inj hds, hid, hs]
    exact solvedProblemIds_filter s.store i
  refine ⟨hseen, h'.scored, fun g total hcomputes heq => ?_⟩
  obtain ⟨b, x, hb, hx, htotal⟩ := hseen.total hcomputes
  obtain ⟨c, hc, -, -, hscore'⟩ := h'.found g hcomputes.choose_spec.choose_spec.1
  obtain rfl : c = b := Option.some.inj (hc.symm.trans hb)
  rcases hscore' with hsame | hnow
  · rw [hs] at hb hx htotal
    have hscores : s.store.scores i (s.store.solves i) = true := by
      unfold Store.scores
      rw [hb, Option.all_some, hx, Option.all_some, ← hsame, ← htotal]
      exact heq
    rw [hcounted, hs, hid]
    show (if _ then s.recounted i else s.counted) i = _
    rw [if_pos hscores, s.recounted_self]
  · exact hnow

/-- **One step of a recalculation.** -/
theorem Progress.hear {c : Choice} {r : Request} {x : Reply r} {st : Store}
    (hanswer : answer c s.store r = (.ok x, st)) (hasks : Rescores i v r)
    (hfollow : Follows i s ⟨st, s.recount r⟩) (h : v.opened = 2 → Progress i s v)
    (hopened : (v.look r x).opened = 2) : Progress i ⟨st, s.recount r⟩ (v.look r x) := by
  cases r with
  | findAttempt j scope =>
    obtain ⟨rfl, hscope⟩ := hasks
    have hone : v.opened = 1 := Nat.succ.inj hopened
    rw [hscope hone] at hanswer
    cases hanswer
    have hfilter : (s.store.attempt j).filter (fun a => inScope none a.collegeId) =
        s.store.attempt j := by
      cases s.store.attempt j <;> rfl
    rw [hfilter]
    exact Progress.begin s j _
  | findAssessment j scope =>
    have hprogress := h hopened
    obtain ⟨rfl, f, hf, rfl⟩ := hasks hopened
    cases hanswer
    have hfilter : ((f.assessment.bind s.store.assessment).filter
        fun a => inScope none a.collegeId) = f.assessment.bind s.store.assessment := by
      cases f.assessment.bind s.store.assessment <;> rfl
    rw [hfilter]
    exact hprogress.findAssessment hf
  | findSuccessful j =>
    have hprogress := h hopened
    obtain ⟨f, hf, rfl⟩ := hasks hopened
    cases hanswer
    exact hprogress.findSuccessful hf rfl rfl
  | updateAttempt j u =>
    have hprogress := (h hopened).follow hfollow
    refine ⟨⟨hprogress.missing, hprogress.found, hprogress.assessment, hprogress.solved⟩,
      fun hscored => ?_, hprogress.right⟩
    rcases Bool.or_eq_true _ _ ▸ hscored with hv | hu
    · exact hprogress.scored hv
    · obtain ⟨total, htotal⟩ := Option.isSome_iff_exists.mp hu
      show s.recount (.updateAttempt j u) i = st.solves i
      rw [s.recount_scored j htotal, hasks.1, s.recounted_self]
      exact hfollow.solves.symm
  | _ => exact (h hopened).follow hfollow

end Reads

/-! ### The updates of the attempt -/

/-- What an update of the attempt does to its score: it leaves the status and the score, it
reopens the attempt, it writes the score of what is solved, or it closes an attempt whose
score counts that. -/
inductive Writable (i : ObjectId) (s : ScoredStore) (u : AttemptUpdate) : Prop
  | keeps (hscore : u.score = none) (hstatus : u.status = none)
  | reopens (hscore : u.score = none) (hstatus : u.status = some .active)
  | scores (h : ∃ a x, s.store.attempt i = some a ∧
      s.store.assessment a.assessmentId = some x ∧ u = setScore (x.scoreOf (s.store.solves i)))
  | closes (hscore : u.score = none)
      (h : s.store.attempt i = none ∨ Unassessed s.store i ∨ UpToDate s i)

theorem upToDate_of_eq {i : ObjectId} {s : ScoredStore} (h : s.counted i = s.store.solves i) :
    UpToDate s i :=
  fun p => Or.inr (congrFun h p).symm

theorem writable_of_asks {i : ObjectId} {s : ScoredStore} {op : ScoreOperation} {v : ScoreView}
    {u : AttemptUpdate} (hasks : Scores op v (.updateAttempt i u))
    (hprogress : op.recalculates = some i → v.opened = 2 → Progress i s v)
    (htimeOut : ∀ t, u = timeOut t → UpToDate s i) : Writable i s u := by
  unfold Scores at hasks
  cases hop : op.recalculates with
  | none =>
    rw [hop] at hasks
    obtain ⟨hscore, hnone | hactive | ⟨t, rfl⟩⟩ := hasks
    · exact .keeps hscore hnone
    · exact .reopens hscore hactive
    · exact .closes rfl (Or.inr (Or.inr (htimeOut t rfl)))
  | some j =>
    rw [hop] at hasks
    obtain ⟨rfl, ⟨t, rfl⟩ | ⟨hopened, f, total, rfl, hcomputes⟩ | ⟨hscore, hrecalculated⟩⟩ := hasks
    · exact .closes rfl (Or.inr (Or.inr (htimeOut t rfl)))
    · obtain ⟨a, x, ha, hx, rfl⟩ := (hprogress hop hopened).total hcomputes
      exact .scores ⟨a, x, ha, hx, rfl⟩
    · refine .closes hscore ?_
      rcases (hprogress hop hrecalculated.1).recalculated hrecalculated with h | h | h
      · exact Or.inl h
      · exact Or.inr (Or.inl h)
      · exact Or.inr (Or.inr (upToDate_of_eq h))

/-! ### One step -/

section Changes

variable {i : ObjectId} {s : ScoredStore} {r : Request} {st : Store}

theorem scores_congr {s s' : Store} {solved : ObjectId → Bool}
    (hattempt : s'.attempt i = s.attempt i) (hassessments : s'.assessments = s.assessments) :
    s'.scores i solved = s.scores i solved := by
  unfold Store.scores Store.assessment
  rw [hattempt, hassessments]

/-- **The score stays the one of the counted problems.** -/
theorem scores_change (h : Changes s.store r st)
    (hscores : s.store.scores i (s.counted i) = true)
    (hwrite : ∀ u, r = .updateAttempt i u → Writable i s u) :
    st.scores i (s.recount r i) = true := by
  cases h with
  | @updated id u hcast =>
    by_cases hi : i = id
    · subst hi
      -- an update without a score
      have hunscored : u.score = none →
          (s.store.updateAttempt i u).scores i (s.recount (.updateAttempt i u) i) = true := by
        intro hscore
        rw [s.recount_unscored i hscore]
        unfold Store.scores at hscores ⊢
        rw [attempt_updateAttempt, if_pos rfl]
        cases ha : s.store.attempt i with
        | none => rfl
        | some a =>
          rw [ha, Option.all_some] at hscores
          rw [Option.map_some, Option.all_some]
          show (s.store.assessment a.assessmentId).all (fun x =>
            (u.score.getD a.score).eq (x.scoreOf (s.counted i))) = true
          rw [hscore]
          exact hscores
      rcases hwrite u rfl with ⟨hscore, -⟩ | ⟨hscore, -⟩ | ⟨a, x, ha, hx, hu⟩ | ⟨hscore, -⟩
      · exact hunscored hscore
      · exact hunscored hscore
      · have hscore : u.score = some (x.scoreOf (s.store.solves i)) := by rw [hu]; rfl
        rw [s.recount_scored i hscore, s.recounted_self]
        unfold Store.scores
        rw [attempt_updateAttempt, if_pos rfl, ha, Option.map_some, Option.all_some]
        show (s.store.assessment a.assessmentId).all (fun x =>
          (u.score.getD a.score).eq (x.scoreOf (s.store.solves i))) = true
        rw [hx, Option.all_some, hscore, Option.getD_some]
        apply Binary64.eq_self
        intro hnan
        rw [hnan] at hscore
        simp [AttemptUpdate.failsCast, hscore] at hcast
      · exact hunscored hscore
    · have hrecount : s.recount (.updateAttempt id u) i = s.counted i := by
        unfold ScoredStore.recount ScoredStore.recounted
        dsimp only
        split
        · exact if_neg hi
        · rfl
      have hattempt : (s.store.updateAttempt id u).attempt i = s.store.attempt i := by
        rw [attempt_updateAttempt, if_neg hi]
      rw [hrecount, scores_congr hattempt rfl]
      exact hscores
  | created => exact hscores
  | @settled _ id status f hr hf =>
    have hsame : s.recount r = s.counted := by
      cases r <;> first | rfl | cases hr
    rw [hsame]
    exact hscores
  | other hupdate hs =>
    have hattempt : st.attempt i = s.store.attempt i := by
      unfold Store.attempt
      rw [hs.attempts]
    rw [scores_congr hattempt hs.assessments]
    cases r with
    | updateAttempt id u => exact absurd rfl (hupdate id u)
    | findSuccessful j =>
      unfold ScoredStore.recount
      dsimp only
      split
      · rename_i hright
        by_cases hi : i = j
        · subst hi
          rw [s.recounted_self]
          exact hright
        · rw [show s.recounted j i = s.counted i from if_neg hi]
          exact hscores
      · exact hscores
    | _ => exact hscores

/-- Submissions and counted problems decide whether a score is up to date. -/
theorem UpToDate.congr {s' : ScoredStore} (h : UpToDate s i)
    (hsubmissions : s'.store.submissions = s.store.submissions)
    (hcounted : s'.counted i = s.counted i ∨ s'.counted i = s.store.solves i) :
    UpToDate s' i := by
  intro p
  have hhas : ∀ st, s'.store.has st i p = s.store.has st i p := by
    intro st
    unfold Store.has
    rw [hsubmissions]
  show s'.store.has .pending i p = true ∨ s'.store.has .success i p = s'.counted i p
  rw [hhas, hhas]
  rcases hcounted with hsame | hnow
  · rw [hsame]
    exact h p
  · rw [hnow]
    exact Or.inr rfl

/-- **The score of a closed attempt stays up to date.** -/
theorem upToDate_change (h : Changes s.store r st)
    (hclosed : Closed s.store i → Unassessed s.store i ∨ UpToDate s i)
    (hcreate : ∀ d, r = .createSubmission d → d.status = .pending)
    (hverdict : ∀ id status, r.settles = some (id, status) → status ≠ .pending →
      Closed s.store i → LeavesCounted s i id status)
    (hwrite : ∀ u, r = .updateAttempt i u → Writable i s u) :
    Closed st i → Unassessed st i ∨ UpToDate ⟨st, s.recount r⟩ i := by
  intro hst
  cases h with
  | @updated id u hcast =>
    obtain ⟨a', ha', hactive⟩ := hst
    have hrecount : ∀ j, s.recount (.updateAttempt id u) j = s.counted j ∨
        s.recount (.updateAttempt id u) j = s.store.solves j := s.recount_cases _
    have hunassessed : Unassessed s.store i → Unassessed (s.store.updateAttempt id u) i := by
      intro hnone b hb
      rw [attempt_updateAttempt] at hb
      split at hb
      · obtain ⟨a, ha, rfl⟩ := Option.map_eq_some_iff.mp hb
        exact hnone a ha
      · exact hnone b hb
    have hkept : Closed s.store i → Unassessed (s.store.updateAttempt id u) i ∨
        UpToDate ⟨s.store.updateAttempt id u, s.recount (.updateAttempt id u)⟩ i := by
      intro hc
      rcases hclosed hc with hnone | hdate
      · exact Or.inl (hunassessed hnone)
      · exact Or.inr (hdate.congr rfl (hrecount i))
    rw [attempt_updateAttempt] at ha'
    by_cases hi : i = id
    · subst hi
      rw [if_pos rfl] at ha'
      obtain ⟨a, ha, rfl⟩ := Option.map_eq_some_iff.mp ha'
      rcases hwrite u rfl with ⟨-, hstatus⟩ | ⟨-, hstatus⟩ | ⟨b, x, -, -, hu⟩ |
        ⟨-, hnone | hnone | hdate⟩
      · refine hkept ⟨a, ha, ?_⟩
        change u.status.getD a.status ≠ .active at hactive
        rw [hstatus] at hactive
        exact hactive
      · change u.status.getD a.status ≠ .active at hactive
        rw [hstatus] at hactive
        exact absurd rfl hactive
      · refine Or.inr (upToDate_of_eq ?_)
        show s.recount (.updateAttempt i u) i = s.store.solves i
        rw [s.recount_scored i (by rw [hu]; rfl), s.recounted_self]
      · rw [hnone] at ha
        cases ha
      · exact Or.inl (hunassessed hnone)
      · exact Or.inr (hdate.congr rfl (hrecount i))
    · rw [if_neg hi] at ha'
      exact hkept ⟨a', ha', hactive⟩
  | @created d id =>
    rcases hclosed hst with hnone | hdate
    · exact Or.inl hnone
    · refine Or.inr fun p => ?_
      have hsuccess : Store.has { s.store with
          submissions := s.store.submissions ++ [{ d with id := id }] } .success i p =
            s.store.has .success i p := by
        unfold Store.has
        rw [List.any_append]
        simp [hcreate d rfl]
      rcases hdate p with hpending | hsolved
      · refine Or.inl ?_
        show Store.has _ .pending i p = true
        unfold Store.has
        rw [List.any_append, Bool.or_eq_true]
        exact Or.inl hpending
      · exact Or.inr (hsuccess.trans hsolved)
  | @settled _ id status f hr hf =>
    have hsame : s.recount r = s.counted := by
      cases r <;> first | rfl | cases hr
    rcases hclosed hst with hnone | hdate
    · exact Or.inl hnone
    · rw [hsame]
      exact Or.inr (hdate.settled hf fun hp => hverdict id status hr hp hst)
  | other hupdate hs =>
    have hattempt : st.attempt = s.store.attempt := by
      funext id
      unfold Store.attempt
      rw [hs.attempts]
    have hassessment : st.assessment = s.store.assessment := by
      funext id
      unfold Store.assessment
      rw [hs.assessments]
    unfold Closed at hst
    rw [hattempt] at hst
    rcases hclosed hst with hnone | hdate
    · refine Or.inl ?_
      unfold Unassessed
      rw [hattempt, hassessment]
      exact hnone
    · exact Or.inr (hdate.congr hs.submissions (s.recount_cases r i))

end Changes

/-! ## The invariant in every run -/

section Runs

variable {bson : GoValue → JsValue} {i : ObjectId} {s s' : ScoreConfig} {act : ScoreAction}

theorem ScoreInv.init (hinit : Unattempted i s.store) (hcalls : s.calls = []) : ScoreInv i s := by
  have hactive : ¬ Closed s.store.store i := by
    rintro ⟨a, ha, hclosed⟩
    exact hclosed (hinit.active a ha).1
  refine ⟨?_, fun h => absurd h hactive, fun c hc => ?_⟩
  · unfold Store.scores
    cases ha : s.store.store.attempt i with
    | none => rfl
    | some a =>
      rw [Option.all_some]
      cases s.store.store.assessment a.assessmentId with
      | none => rfl
      | some x =>
        have hzero : ∀ (ps : List AssessmentProblem) (start : Number),
            ps.foldl (fun total p => if s.store.counted i p.problemId then total.add p.maxScore
              else total) start = start := by
          intro ps start
          induction ps with
          | nil => rfl
          | cons p ps ih =>
            rw [List.foldl_cons, hinit.counted]
            exact ih
        rw [Option.all_some, (hinit.active a ha).2]
        show Binary64.eq .zero (List.foldl _ _ _) = true
        rw [hzero]
        rfl
  · rw [hcalls] at hc
    cases hc

/-- **One step keeps the invariant.** -/
theorem ScoreInv.step
    (hobeys : Service.CallsObey (scoreService bson) Scores (fun _ _ _ => True) s)
    (hinv : ScoreInv i s) (hC : ScoreKept i s act)
    (hstep : (scoreService bson).step s act = some s') : ScoreInv i s' := by
  obtain ⟨op, -, rfl⟩ | ⟨n, c, op, v, r, next, rfl, hn, rfl⟩ := Service.step_cases hstep
  · -- a call that starts has opened nothing
    refine ⟨hinv.scores, hinv.closed, fun call hcall hrescoring => ?_⟩
    rcases List.mem_append.mp hcall with hcall | hcall
    · exact hinv.progress call hcall hrescoring
    · rw [List.mem_singleton.mp hcall] at hrescoring
      cases hrescoring.2.1
  · have hmem := List.mem_of_getElem? hn
    have hasks : Scores op v r := hobeys.request hn
    obtain ⟨hverdict, htimeOut⟩ := hC op v r next hn
    have hown : op.recalculates = some i → v.opened = 2 → Progress i s.store v :=
      fun hop hopened => hinv.progress _ hmem ⟨hop, hopened, rfl⟩
    show ScoreInv i ⟨(s.store.serve c r).2, s.calls.set n ⟨op, (scoreService bson).hear v r
      (s.store.serve c r).1, next (s.store.serve c r).1⟩⟩
    rcases s.store.serve_cases c r with ⟨e, hserve⟩ | ⟨x, st, hserve, hanswer⟩
    · -- a refused request changes nothing
      rw [hserve]
      refine ⟨hinv.scores, hinv.closed, fun call hcall hrescoring => ?_⟩
      rcases List.mem_or_eq_of_mem_set hcall with hcall | rfl
      · exact hinv.progress call hcall hrescoring
      · exact hown hrescoring.1 hrescoring.2.1
    · rw [hserve]
      have hchanges : Changes s.store.store r st := answer_changes hanswer
      have hcreate : ∀ d, r = .createSubmission d → d.status = .pending := by
        rintro d rfl
        unfold Scores at hasks
        cases hop : op.recalculates with
        | none =>
          rw [hop] at hasks
          exact hasks
        | some j =>
          rw [hop] at hasks
          exact hasks.elim
      have hwrite : ∀ u, r = .updateAttempt i u → Writable i s.store u := by
        rintro u rfl
        exact writable_of_asks hasks hown fun t ht => htimeOut t (by rw [ht])
      have hfollow : (∃ call ∈ s.calls, Rescoring i call) ∨ r.settles = none →
          Follows i s.store ⟨st, s.store.recount r⟩ := by
        intro h
        refine follows_change hchanges hcreate fun id status hr => ?_
        rcases h with h | h
        · exact (hverdict id status hr).1 h
        · rw [h] at hr
          cases hr
      refine ⟨scores_change hchanges hinv.scores hwrite,
        upToDate_change hchanges hinv.closed hcreate (fun id status hr => (hverdict id status hr).2)
          hwrite, fun call hcall hrescoring => ?_⟩
      rcases List.mem_or_eq_of_mem_set hcall with hcall | rfl
      · exact (hinv.progress call hcall hrescoring).follow (hfollow (Or.inl ⟨call, hcall, hrescoring⟩))
      · obtain ⟨hop, hopened, -⟩ := hrescoring
        have hrescores : Rescores i v r := by
          unfold Scores at hasks
          rw [show op.recalculates = some i from hop] at hasks
          exact hasks
        refine Progress.hear hanswer hrescores (hfollow ?_) (hown hop) hopened
        by_cases htwo : v.opened = 2
        · exact Or.inl ⟨_, hmem, hop, htwo, rfl⟩
        · refine Or.inr ?_
          cases r <;> first | rfl | exact absurd hopened htwo

theorem reachable_scoreInv
    (hs : (scoreSystem bson i).ReachableVia (ScoreKept i) s) : ScoreInv i s := by
  induction hs with
  | init h => exact ScoreInv.init h.1 h.2
  | step hs hC hstep ih => exact ih.step (Service.reachable_callsObey (score_obeys bson) hs) hC hstep

end Runs

/-- A sufficient condition on a step, checked: verdicts come while the attempt is active and
nothing recalculates its score, and no read times an attempt out. -/
def scoreKept (i : ObjectId) (s : ScoreConfig) : ScoreAction → Bool
  | .start _ => true
  | .serve n _ =>
    match s.calls[n]?.bind fun c => c.rest.pending with
    | some (.updateAttempt _ u) => u.status ≠ some .timedOut
    | some r => r.settles.isNone ||
      ((s.calls.all fun c => c.op.recalculates ≠ some i) &&
        (s.store.store.attempt i).all fun a => a.status = .active)
    | none => true

theorem scoreKept_of_check {i : ObjectId} (s : ScoreConfig) (act : ScoreAction)
    (h : scoreKept i s act = true) : ScoreKept i s act := by
  cases act with
  | start op => exact trivial
  | serve n c =>
    intro op v r next hn
    have hpending : (s.calls[n]?.bind fun c => c.rest.pending) = some r := by
      rw [hn]
      rfl
    simp only [scoreKept, hpending] at h
    constructor
    · intro id st hr
      have hcheck : r.settles.isNone || ((s.calls.all fun c => c.op.recalculates ≠ some i) &&
          (s.store.store.attempt i).all fun a => a.status = .active) := by
        cases r <;> first | exact h | cases hr
      rw [hr, Option.isNone_some, Bool.false_or, Bool.and_eq_true] at hcheck
      constructor
      · rintro ⟨call, hcall, hrescoring⟩
        have hne := List.all_eq_true.mp hcheck.1 call hcall
        exact absurd hrescoring.1 (of_decide_eq_true hne)
      · rintro - ⟨a, ha, hclosed⟩
        have hactive := hcheck.2
        rw [ha, Option.all_some, decide_eq_true_eq] at hactive
        exact absurd hactive hclosed
    · rintro t rfl
      exact absurd rfl (of_decide_eq_true h)

/-- A database with an attempt of an assessment of one problem. -/
def assessedStore : Store where
  clock := .zero
  students := [⟨aliceId, none⟩]
  assessments := [⟨"exam", .ofInt 36000000, .ofInt 60, [], [⟨"problem", .ofInt 100⟩], none, false⟩]
  attempts := [openAttempt]
  problems := [⟨"problem", "Sum", none, none, none, [], false⟩]
  counts := []
  submissions := []
  usageEvents := []
  cache := []
  queue := []

def assessed : ScoreConfig := ⟨⟨assessedStore, fun _ _ => false⟩, []⟩

theorem assessed_init (bson : GoValue → JsValue) :
    (scoreSystem bson "attempt").init assessed := by
  refine ⟨⟨fun a ha => ?_, fun d hd => absurd hd List.not_mem_nil, fun _ => rfl⟩, rfl⟩
  obtain rfl : openAttempt = a := Option.some.inj ha
  exact ⟨rfl, rfl⟩

def aliceSolution : Solution where
  problemId := "problem"
  code := "print()"
  language := "python"
  userId := aliceId
  collegeId := none
  assessmentId := some "exam"
  attemptId := some "attempt"
  requestId := none
  externalStudentId := none
  externalAssessmentId := none

def acceptedVerdict : Verdict where
  submissionId := judgedId
  problemId := "problem"
  language := "python"
  code := "print()"
  collegeId := ""
  outcome := ⟨.success, "ok", none⟩

/-- Alice submits, as the first call. -/
def aliceSubmits : List ScoreAction :=
  .start (.attempt (.submitSolution aliceSolution)) :: List.replicate 9 (.serve 0 { newId := judgedId })

/-- The `n`-th call is the verdict, up to the update of the submission. -/
def verdictComes (n : ℕ) : List ScoreAction :=
  [.start (.submission (.processAndStoreResults acceptedVerdict)), .serve n {}]

/-- The `n`-th call ends the attempt. -/
def aliceEnds (n k : ℕ) : List ScoreAction :=
  .start (.attempt (.submitAssessment "attempt" alice)) :: List.replicate k (.serve n {})

/-- What the theorem is about: the status of the attempt, and whether its score is 100 and
its assessment is found; and the verdicts. -/
def outcomeOf (s : ScoreConfig) : Option (AttemptStatus × Bool × Bool) × List SubmissionStatus :=
  ((s.store.store.attempt "attempt").map fun a =>
      (a.status, a.score.eq (.ofInt 100), (s.store.store.assessment a.assessmentId).isSome),
    s.store.store.submissions.map Submission.status)

end Api
