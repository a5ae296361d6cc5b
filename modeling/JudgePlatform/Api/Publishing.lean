/-
# Submissions that fail halfway

`submitSolution` creates the record of a submission before it validates the message to
the judge and publishes it.  `publishSubmissionMessage` is a program of its own: it
prepares a channel of the broker, the dead letters and the queue, and gives up when the
queue is full.

* `Environment` : what refuses which request in one call.
* `all_or_nothing` : a call that fails leaves no pending submission without a message
  if and only if, once the record is created, its message is valid and the broker takes it.
-/
import JudgePlatform.Api.AttemptRuns
import JudgePlatform.Library.Expansion

namespace Publishing

open Api (ObjectId ServiceError Solution JudgeMessage Problem Submission)

/-! ## The broker -/

def queueName : String := "submission_queue"

def dlxName : String := "submission_dlx"

def dlqName : String := "submission_dead_letters"

def maxQueueDepth : ℕ := 5000

inductive Request where
  /-- a request of the API to its store; a message that is published is sent to the queue -/
  | base (r : Api.Request)
  /-- whether there is a channel already -/
  | getChannel
  | connect
  | createChannel
  | assertExchange (name : String)
  /-- declares a queue, and is answered with its depth -/
  | assertQueue (name : String)
  | bindQueue (queue exchange pattern : String)
  | closeChannel
  | closeConnection

def Reply : Request → Type
  | .base r => Api.Reply r
  | .getChannel => Bool
  | .assertQueue _ => ℕ
  | _ => Unit

abbrev Task (α : Type) := Program Reply ServiceError α

abbrev ask (r : Request) : Task (Reply r) := Program.call r

/-- A channel that was opened for the message is closed again. -/
def close (existingChannel : Bool) : Task Unit :=
  if existingChannel then pure () else do
    ask .closeChannel
    ask .closeConnection

def overloaded : ServiceError :=
  .http 503 "System overloaded with pending submissions. Please try again in a few moments."

def queueUnavailable : ServiceError :=
  .http 503 "Submission queue is temporarily unavailable. Please try again."

/-- The connection and the channel of a message that has to open its own. -/
def openChannel (existingChannel : Bool) : Task Unit :=
  if existingChannel then pure () else do
    ask .connect
    ask .createChannel

/-- Declare the dead letters and the queue; the answer is the depth of the queue. -/
def setupQueues : Task ℕ := do
  ask (.assertExchange dlxName)
  let _ ← ask (.assertQueue dlqName)
  ask (.bindQueue dlqName dlxName "")
  ask (.assertQueue queueName)

/-- A queue that is too long takes no more messages. -/
def deliver (existingChannel : Bool) (messageBody : JudgeMessage) (messageCount : ℕ) : Task Unit :=
  if messageCount ≥ maxQueueDepth then do
    close existingChannel
    throw overloaded
  else do
    ask (.base (.publish messageBody))
    close existingChannel

def sendMessage (existingChannel : Bool) (messageBody : JudgeMessage) : Task Unit := do
  openChannel existingChannel
  let messageCount ← setupQueues
  deliver existingChannel messageBody messageCount

def publishSubmissionMessage (messageBody : JudgeMessage) : Task Unit := do
  let existingChannel : Bool ← ask .getChannel
  tryCatch (sendMessage existingChannel messageBody) fun err =>
    match err with
    | .http 503 _ => throw err
    | _ => throw queueUnavailable

/-- The requests of the API as they are made here. -/
def lower : (r : Api.Request) → Task (Api.Reply r)
  | .publish m => publishSubmissionMessage m
  | r => ask (.base r)

/-! ## One call -/

/-- What happens to the requests of a call, of which it makes none twice but for the clock. -/
structure Environment where
  choice : Api.Request → Api.Choice
  channel : Bool
  refused : Request → Bool
  messageCount : ℕ

variable (env : Environment)

/-- The broker refuses, or does what it is asked. -/
def Environment.broker {α : Type} (r : Request) (x : α) (s : Api.Store) :
    Except ServiceError α × Api.Store :=
  (if env.refused r then .error .unavailable else .ok x, s)

def serve (s : Api.Store) : (r : Request) → Except ServiceError (Reply r) × Api.Store
  | .base r => Api.serve (env.choice r) s r
  | .getChannel => (.ok env.channel, s)
  | .assertQueue name => env.broker (.assertQueue name) env.messageCount s
  | .connect => env.broker .connect () s
  | .createChannel => env.broker .createChannel () s
  | .assertExchange name => env.broker (.assertExchange name) () s
  | .bindQueue queue exchange pattern => env.broker (.bindQueue queue exchange pattern) () s
  | .closeChannel => env.broker .closeChannel () s
  | .closeConnection => env.broker .closeConnection () s

/-- A call by itself. -/
def run {α : Type} (s : Api.Store) (t : Api.Task α) : Except ServiceError α × Api.Store :=
  (t.expand lower).eval (serve env) s

/-- A submission waits for the judge, and no message was published for it. -/
def Orphan (s : Api.Store) (d : Submission) : Prop :=
  d ∈ s.submissions ∧ d.status = .pending ∧ ∀ m ∈ s.queue, m.submissionId ≠ d.id

/-- A call that throws or does not find its problem leaves no orphan. -/
def AllOrNothing (s : Api.Store) (x : Solution) : Prop :=
  match run env s (Api.submitSolution x) with
  | (.ok (some _), _) => True
  | (_, s') => ∀ d, ¬Orphan s' d

/-! ## What the broker takes -/

/-- There is a channel, or one can be opened. -/
def Environment.opens : Bool := env.channel || (!env.refused .connect && !env.refused .createChannel)

/-- The dead letters and the queue can be declared. -/
def Environment.declares : Bool :=
  !env.refused (.assertExchange dlxName) && !env.refused (.assertQueue dlqName) &&
    !env.refused (.bindQueue dlqName dlxName "") && !env.refused (.assertQueue queueName)

/-- What has to go well for a message to be sent. -/
def Environment.takes (m : JudgeMessage) : Bool :=
  env.opens && env.declares && env.messageCount < maxQueueDepth && !(env.choice (.publish m)).refused

section Publish

variable {env} {s : Api.Store}

/-- A request to the broker does not touch the store. -/
theorem eval_broker {α : Type} {r : Request} {x : Reply r} (g : Reply r → Task α)
    (hserve : serve env s r = env.broker r x s) :
    (ask r >>= g).eval (serve env) s =
      if env.refused r then (.error .unavailable, s) else (g x).eval (serve env) s := by
  rw [Program.eval_call_bind, hserve]
  unfold Environment.broker
  cases env.refused r <;> rfl

/-- Closing a channel does not touch the store. -/
theorem eval_close (existingChannel : Bool) :
    ((close existingChannel).eval (serve env) s).2 = s := by
  cases existingChannel with
  | true => rfl
  | false =>
    show ((ask .closeChannel >>= fun _ => ask .closeConnection).eval (serve env) s).2 = s
    rw [eval_broker _ rfl, Program.eval_call]
    split <;> rfl

theorem eval_openChannel :
    (openChannel env.channel).eval (serve env) s =
      if env.opens then (.ok (), s) else (.error .unavailable, s) := by
  unfold Environment.opens
  cases env.channel with
  | true => rfl
  | false =>
    show (ask .connect >>= fun _ => ask .createChannel).eval (serve env) s = _
    rw [eval_broker _ rfl]
    cases hconnect : env.refused .connect with
    | true => rfl
    | false =>
      show (ask .createChannel).eval (serve env) s = _
      rw [Program.eval_call]
      show env.broker .createChannel () s = _
      unfold Environment.broker
      cases env.refused .createChannel <;> rfl

theorem eval_setupQueues :
    setupQueues.eval (serve env) s =
      if env.declares then (.ok env.messageCount, s) else (.error .unavailable, s) := by
  unfold Environment.declares
  refine (eval_broker (r := .assertExchange dlxName) (x := ()) _ rfl).trans ?_
  cases env.refused (.assertExchange dlxName) with
  | true => rfl
  | false =>
    refine (eval_broker (r := .assertQueue dlqName) (x := env.messageCount) _ rfl).trans ?_
    cases env.refused (.assertQueue dlqName) with
    | true => rfl
    | false =>
      refine (eval_broker (r := .bindQueue dlqName dlxName "") (x := ()) _ rfl).trans ?_
      cases env.refused (.bindQueue dlqName dlxName "") with
      | true => rfl
      | false =>
        refine (Program.eval_call _ _ _).trans ?_
        show env.broker (.assertQueue queueName) env.messageCount s = _
        unfold Environment.broker
        cases env.refused (.assertQueue queueName) <;> rfl

/-- What becomes of a message: it is in the queue, or nothing happened and the call throws. -/
def Sends (env : Environment) (s : Api.Store) (m : JudgeMessage) (t : Task Unit) : Prop :=
  if env.takes m then (t.eval (serve env) s).2 = { s with queue := s.queue ++ [m] }
  else ∃ e, t.eval (serve env) s = (.error e, s)

theorem sends_error {m : JudgeMessage} {t : Task Unit} {e : ServiceError} (h : env.takes m = false)
    (ht : t.eval (serve env) s = (.error e, s)) : Sends env s m t := by
  unfold Sends
  rw [h]
  exact ⟨e, ht⟩

theorem deliver_sends (m : JudgeMessage) (hopen : env.opens = true)
    (hdeclare : env.declares = true) : Sends env s m (deliver env.channel m env.messageCount) := by
  unfold deliver
  by_cases hdepth : env.messageCount ≥ maxQueueDepth
  · rw [if_pos hdepth]
    have htakes : env.takes m = false := by
      simp [Environment.takes, Nat.not_lt.mpr hdepth]
    have hclose := @eval_close env s env.channel
    have heval : (close env.channel >>= fun _ => (throw overloaded : Task Unit)).eval (serve env) s =
      _ := Program.eval_bind _ _ _ _
    generalize (close env.channel).eval (serve env) s = y at hclose heval
    rcases y with ⟨e | x, s'⟩
    · exact sends_error htakes (heval.trans (congrArg _ hclose))
    · exact sends_error htakes (heval.trans (congrArg _ hclose))
  · rw [if_neg hdepth]
    have heval := Program.eval_call_bind (serve env) s (.base (.publish m))
      fun _ => close env.channel
    by_cases hrefused : (env.choice (.publish m)).refused = true
    · have hserve : serve env s (.base (.publish m)) = (.error .unavailable, s) :=
        if_pos ⟨hrefused, rfl⟩
      rw [hserve] at heval
      exact sends_error (by simp [Environment.takes, hrefused]) heval
    · have hserve : serve env s (.base (.publish m)) =
          (.ok (), { s with queue := s.queue ++ [m] }) := if_neg fun h => hrefused h.1
      rw [hserve] at heval
      unfold Sends
      rw [if_pos (by simp [Environment.takes, hopen, hdeclare, hrefused, Nat.lt_of_not_ge hdepth])]
      exact (congrArg Prod.snd heval).trans (eval_close env.channel)

theorem sendMessage_sends (m : JudgeMessage) : Sends env s m (sendMessage env.channel m) := by
  have heval : (sendMessage env.channel m).eval (serve env) s = _ := Program.eval_bind _ _ _ _
  rw [eval_openChannel] at heval
  by_cases hopen : env.opens = true
  case neg =>
    rw [if_neg hopen] at heval
    exact sends_error (by simp [Environment.takes, hopen]) heval
  rw [if_pos hopen] at heval
  have hrest := Program.eval_bind (serve env) s setupQueues (deliver env.channel m)
  rw [eval_setupQueues] at hrest
  by_cases hdeclare : env.declares = true
  case neg =>
    rw [if_neg hdeclare] at hrest
    exact sends_error (by simp [Environment.takes, hdeclare]) (heval.trans hrest)
  rw [if_pos hdeclare] at hrest
  have hdeliver := deliver_sends (s := s) m hopen hdeclare
  unfold Sends at hdeliver ⊢
  rw [heval.trans hrest]
  exact hdeliver

/-- A message is in the queue, or nothing happened and the call throws. -/
theorem publishSubmissionMessage_sends (m : JudgeMessage) :
    Sends env s m (publishSubmissionMessage m) := by
  have hsend := @sendMessage_sends env s m
  have heval : (publishSubmissionMessage m).eval (serve env) s =
      (tryCatch (sendMessage env.channel m) fun err =>
        match err with
        | .http 503 _ => throw err
        | _ => throw queueUnavailable).eval (serve env) s := Program.eval_call_bind _ _ _ _
  rw [Program.eval_tryCatch] at heval
  unfold Sends at hsend ⊢
  rw [heval]
  split at hsend
  · rename_i htakes
    rw [if_pos htakes]
    generalize (sendMessage env.channel m).eval (serve env) s = y at hsend
    rcases y with ⟨e | x, s'⟩
    · show (Program.eval (serve env) s' _).2 = _
      split <;> exact hsend
    · exact hsend
  · rename_i htakes
    rw [if_neg htakes]
    obtain ⟨e, he⟩ := hsend
    rw [he]
    show ∃ e', Program.eval (serve env) s _ = _
    split
    · exact ⟨_, rfl⟩
    · exact ⟨_, rfl⟩

end Publish

/-! ## The parts of a call -/

/-- What is checked before the record is created, and the problem that was found. -/
def checks (x : Solution) : Api.Task (Option Problem) := do
  Api.validateAssessmentSubmission x.problemId x.language x.userId x.assessmentId x.attemptId
  Api.checkLimits x
  match ← Api.ask (.findProblem x.problemId) with
  | none => return none
  | some problem =>
    Api.checkPremium x problem
    return some problem

/-- The message for a submission. -/
def messageBody (x : Solution) (problem : Problem) (submission : Submission) : JudgeMessage :=
  { Api.buildJudgeMessageBody submission.id problem x.language x.code x.requestId with
    collegeId := x.collegeId }

/-- What follows on the creation of the record. -/
def finish (x : Solution) (problem : Problem) (submission : Submission) :
    Api.Task (Option Submission) := do
  Api.logSubmission x problem submission
  Api.require (Api.validateSubmissionMessage (messageBody x problem submission))
    (.http 500 "Invalid submission message")
  Api.ask (.publish (messageBody x problem submission))
  return some submission

def createAndFinish (x : Solution) : Option Problem → Api.Task (Option Submission)
  | none => pure none
  | some problem => Api.ask (.createSubmission x.record) >>= finish x problem

theorem submitSolution_eq (x : Solution) :
    Api.submitSolution x = checks x >>= createAndFinish x := by
  show Program.bind _ _ = (Program.bind _ _).bind _
  rw [Program.bind_assoc]
  congr 1
  funext _
  show Program.bind _ _ = (Program.bind _ _).bind _
  rw [Program.bind_assoc]
  congr 1
  funext _
  show Program.bind _ _ = (Program.bind _ _).bind _
  rw [Program.bind_assoc]
  congr 1
  funext found
  cases found with
  | none => rfl
  | some problem =>
    show Program.bind _ _ = (Program.bind _ _).bind _
    rw [Program.bind_assoc]
    rfl

/-- The record of a submission was created. -/
def Created (s : Api.Store) (x : Solution) (problem : Problem) (submission : Submission) : Prop :=
  (run env s (checks x)).1 = .ok (some problem) ∧
    (Api.serve (env.choice (.createSubmission x.record)) (run env s (checks x)).2
      (.createSubmission x.record)).1 = .ok submission

/-! ### What leaves the submissions and the queue as they are -/

def Leaves : Api.Request → Prop
  | .createSubmission _ => False
  | .resetSubmission _ => False
  | .storeResult _ _ _ _ => False
  | .storeFailure _ _ => False
  | .publish _ => False
  | _ => True

/-- The same with the broker, which keeps nothing in the store. -/
def LeavesBelow : Request → Prop
  | .base r => Leaves r
  | _ => True

theorem leaves_of_isLookup {r : Api.Request} (h : r.isLookup = true) : Leaves r := by
  cases r with
  | now => exact trivial
  | findAttempt id scope => exact trivial
  | findAssessment id scope => exact trivial
  | _ => cases h

theorem lower_of_leaves {r : Api.Request} (h : Leaves r) : lower r = ask (.base r) := by
  cases r with
  | publish m => exact h.elim
  | _ => rfl

theorem serve_leaves (c : Api.Choice) (s : Api.Store) {r : Api.Request} (h : Leaves r) :
    (Api.serve c s r).2.submissions = s.submissions ∧ (Api.serve c s r).2.queue = s.queue := by
  unfold Api.serve
  split
  · exact ⟨rfl, rfl⟩
  · cases r with
    | createSubmission d => exact h.elim
    | resetSubmission id => exact h.elim
    | storeResult id status output testResult => exact h.elim
    | storeFailure id reason => exact h.elim
    | publish m => exact h.elim
    | updateAttempt id u =>
      simp only [Api.answer]
      split
      · exact ⟨rfl, rfl⟩
      · exact ⟨rfl, rfl⟩
    | _ => exact ⟨rfl, rfl⟩

section Parts

variable {env} {s : Api.Store}

theorem run_bind {α β : Type} (t : Api.Task α) (g : α → Api.Task β) :
    run env s (t >>= g) =
      match run env s t with
      | (.ok a, s') => run env s' (g a)
      | (.error e, s') => (.error e, s') := by
  unfold run
  rw [Program.expand_bind, Program.eval_bind]
  rcases (t.expand lower).eval (serve env) s with ⟨e | a, s'⟩
  · rfl
  · rfl

theorem run_publish (m : JudgeMessage) :
    run env s (Api.ask (.publish m)) = (publishSubmissionMessage m).eval (serve env) s := by
  unfold run
  rw [Program.expand_call]
  rfl

theorem run_createSubmission (d : Submission) :
    run env s (Api.ask (.createSubmission d)) =
      Api.serve (env.choice (.createSubmission d)) s (.createSubmission d) := by
  unfold run
  rw [Program.expand_call]
  exact Program.eval_call _ _ _

/-- A part of a call that leaves the submissions and the queue as they are, and ends as it is
specified to. -/
theorem run_leaves {α View : Type} {look : View → (r : Api.Request) → Api.Reply r → View}
    {Q : Except ServiceError α → Prop} {v : View} {t : Api.Task α}
    (h : t.Obeys look (fun _ r => Leaves r) (fun _ y => Q y) v) :
    (run env s t).2.submissions = s.submissions ∧ (run env s t).2.queue = s.queue ∧
      Q (run env s t).1 := by
  have hbelow : (t.expand lower).Obeys (fun _ _ _ => ()) (fun _ r => LeavesBelow r)
      (fun _ y => ∃ w, True ∧ (fun _ : View => Q) w y) () := by
    refine Program.Obeys.expand (R := fun _ _ => True) h (fun w u r _ hr => ?_) trivial
    rw [lower_of_leaves hr]
    exact Program.Obeys.call (r := Request.base r) hr (fun _ => trivial) fun _ => trivial
  have hlower : (t.expand lower).Obeys (fun _ _ _ => ()) (fun _ r => LeavesBelow r)
      (fun _ y => Q y) () :=
    hbelow.mono (fun _ _ hr => hr) fun _ _ ⟨_, _, hy⟩ => hy
  have hkeep : (run env s t).2.submissions = s.submissions ∧ (run env s t).2.queue = s.queue := by
    refine hlower.eval (K := fun s' : Api.Store => s'.submissions = s.submissions ∧ s'.queue = s.queue)
      (fun s' r hr hs => ?_) ⟨rfl, rfl⟩
    cases r with
    | base r =>
      obtain ⟨hsubmissions, hqueue⟩ := serve_leaves (env.choice r) s' hr
      exact ⟨hsubmissions.trans hs.1, hqueue.trans hs.2⟩
    | _ => exact hs
  have hends : ∃ _ : Unit, Q (run env s t).1 := hlower.eval_ends
  obtain ⟨-, hQ⟩ := hends
  exact ⟨hkeep.1, hkeep.2, hQ⟩

theorem checks_leaves (x : Solution) :
    (checks x).Obeys Api.AttemptView.look (fun _ r => Leaves r) (fun _ _ => True) {} := by
  refine Program.Obeys.bind (Api.validateAssessmentSubmission_obeys _ _ _ _ _
    (fun _ _ => leaves_of_isLookup) fun _ _ _ _ _ => trivial) (fun _ _ _ => ?_) fun _ _ _ => trivial
  refine Program.Obeys.bind (Api.checkLimits_obeys x fun _ _ => trivial) (fun _ _ _ => ?_)
    fun _ _ _ => trivial
  refine Program.Obeys.call_bind trivial (fun found => ?_) fun _ => trivial
  cases found with
  | none => exact trivial
  | some problem =>
    exact Program.Obeys.bind (Api.checkPremium_obeys x problem fun _ _ => trivial)
      (fun _ _ _ => trivial) fun _ _ _ => trivial

/-- A failure to log a submission is caught. -/
theorem logSubmission_leaves (x : Solution) (problem : Problem) (submission : Submission) :
    (Api.logSubmission x problem submission).Obeys Api.AttemptView.look (fun _ r => Leaves r)
      (fun _ y => y = .ok ()) {} := by
  unfold Api.logSubmission
  cases x.attemptId with
  | none => exact rfl
  | some i =>
    have hbody : Program.Obeys Api.AttemptView.look (fun _ r => Leaves r) (fun _ _ => True) {} (do
        let timestamp ← Api.ask .now
        let _ ← Api.ask (.updateAttempt i
          { push := some (.submitProblem timestamp x.problemId problem.title submission.id) })
        pure ()) := by
      refine Program.Obeys.call_bind trivial (fun t => ?_) fun _ => trivial
      exact Program.Obeys.call_bind trivial (fun _ => trivial) fun _ => trivial
    exact Program.Obeys.tryCatch hbody (fun _ _ _ => rfl) fun _ _ _ => rfl

/-- A submission is created with the record asked for, or not at all. -/
theorem serve_createSubmission (c : Api.Choice) (s : Api.Store) (d : Submission) :
    (∃ e, Api.serve c s (.createSubmission d) = (.error e, s)) ∨
      (s.submission c.newId = none ∧ Api.serve c s (.createSubmission d) =
        (.ok { d with id := c.newId },
          { s with submissions := s.submissions ++ [{ d with id := c.newId }] })) := by
  unfold Api.serve
  split
  · exact Or.inl ⟨_, rfl⟩
  · simp only [Api.answer]
    split
    · exact Or.inl ⟨_, rfl⟩
    · rename_i hnew
      refine Or.inr ⟨?_, rfl⟩
      rw [Option.eq_none_iff_forall_ne_some]
      intro d' hd'
      exact hnew (Or.inl (by rw [hd']; rfl))

end Parts

/-! ## All or nothing -/

/-- Every pending submission has a message, and the messages are those of stored submissions. -/
structure Clean (s : Api.Store) : Prop where
  published : ∀ d, ¬Orphan s d
  known : ∀ m ∈ s.queue, (s.submission m.submissionId).isSome

section Orphans

variable {env} {s s' : Api.Store} {d : Submission}

theorem Clean.of_eq (h : Clean s) (hsubmissions : s'.submissions = s.submissions)
    (hqueue : s'.queue = s.queue) (d : Submission) : ¬Orphan s' d := by
  rintro ⟨hmem, hpending, hnone⟩
  rw [hsubmissions] at hmem
  rw [hqueue] at hnone
  exact h.published d ⟨hmem, hpending, hnone⟩

/-- A new record is an orphan until its message is in the queue. -/
theorem Clean.orphan (h : Clean s) (hpending : d.status = .pending)
    (hnew : s.submission d.id = none) (hsubmissions : s'.submissions = s.submissions ++ [d])
    (hqueue : s'.queue = s.queue) : Orphan s' d := by
  refine ⟨?_, hpending, fun m hm hid => ?_⟩
  · rw [hsubmissions]
    exact List.mem_append_right _ (List.mem_singleton_self d)
  · rw [hqueue] at hm
    have hknown := h.known m hm
    rw [hid, hnew] at hknown
    cases hknown

theorem Clean.no_orphan (h : Clean s) {m : JudgeMessage} (hm : m.submissionId = d.id)
    (hsubmissions : s'.submissions = s.submissions ++ [d]) (hqueue : s'.queue = s.queue ++ [m])
    (d' : Submission) : ¬Orphan s' d' := by
  rintro ⟨hmem, hpending, hnone⟩
  rw [hqueue] at hnone
  rw [hsubmissions] at hmem
  rcases List.mem_append.mp hmem with hold | hnew
  · exact h.published d' ⟨hold, hpending, fun m' hm' => hnone m' (List.mem_append_left _ hm')⟩
  · rw [List.mem_singleton.mp hnew] at hnone
    exact hnone m (List.mem_append_right _ (List.mem_singleton_self m)) hm

/-- How a call ends whose record was created: it succeeds, or its message was sent before it
threw, or nothing was sent. -/
theorem finish_ends (x : Solution) (problem : Problem) (s : Api.Store) (d : Submission) :
    if Api.validateSubmissionMessage (messageBody x problem d) = true ∧
        env.takes (messageBody x problem d) = true then
      (run env s (finish x problem d)).2.submissions = s.submissions ∧
        (run env s (finish x problem d)).2.queue = s.queue ++ [messageBody x problem d]
    else
      (∃ e, (run env s (finish x problem d)).1 = .error e) ∧
        (run env s (finish x problem d)).2.submissions = s.submissions ∧
        (run env s (finish x problem d)).2.queue = s.queue := by
  obtain ⟨hsubmissions, hqueue, hok⟩ :=
    @run_leaves env s _ _ _ (· = .ok ()) _ _ (logSubmission_leaves x problem d)
  have hlog : run env s (finish x problem d) = _ := run_bind (Api.logSubmission x problem d) _
  generalize run env s (Api.logSubmission x problem d) = y at hsubmissions hqueue hok hlog
  obtain ⟨y, s₁⟩ := y
  obtain rfl : y = .ok () := hok
  let m := messageBody x problem d
  have hrest : run env s (finish x problem d) = run env s₁ (Api.require
      (Api.validateSubmissionMessage m = true) (.http 500 "Invalid submission message") >>= fun _ =>
        Api.ask (.publish m) >>= fun _ => pure (some d)) := hlog
  unfold Api.require at hrest
  by_cases hvalid : Api.validateSubmissionMessage m = true
  · rw [if_pos hvalid] at hrest
    have hpublish : run env s (finish x problem d) = _ :=
      hrest.trans (run_bind (Api.ask (.publish m)) fun _ => pure (some d))
    rw [run_publish] at hpublish
    have hsends := @publishSubmissionMessage_sends env s₁ m
    unfold Sends at hsends
    by_cases htakes : env.takes m = true
    · rw [if_pos htakes] at hsends
      rw [if_pos ⟨hvalid, htakes⟩]
      have hstore : (run env s (finish x problem d)).2 = { s₁ with queue := s₁.queue ++ [m] } := by
        rw [hpublish]
        generalize (publishSubmissionMessage m).eval (serve env) s₁ = z at hsends
        rcases z with ⟨e | u, s₂⟩
        · exact hsends
        · exact hsends
      rw [hstore]
      exact ⟨hsubmissions, congrArg (· ++ [m]) hqueue⟩
    · rw [if_neg htakes] at hsends
      rw [if_neg fun h => htakes h.2]
      obtain ⟨e, he⟩ := hsends
      rw [he] at hpublish
      rw [hpublish]
      exact ⟨⟨e, rfl⟩, hsubmissions, hqueue⟩
  · rw [if_neg hvalid] at hrest
    rw [if_neg fun h => hvalid h.1, hrest]
    exact ⟨⟨_, rfl⟩, hsubmissions, hqueue⟩

end Orphans

/-- A problem without an assessment. -/
def practice : Solution where
  problemId := "problem"
  code := "print()"
  language := "python"
  userId := "student"
  collegeId := none
  assessmentId := none
  attemptId := none
  requestId := none
  externalStudentId := none
  externalAssessmentId := none

def oneProblem : Api.Store :=
  ⟨.zero, [], [], [], [⟨"problem", "Sum", none, none, none, [], false⟩], [], [], [], [], []⟩

theorem oneProblem_clean : Clean oneProblem :=
  ⟨fun _ h => absurd h.1 List.not_mem_nil, fun _ hm => absurd hm List.not_mem_nil⟩

/-- A broker whose queue has `messageCount` messages. -/
def brokerWith (messageCount : ℕ) : Environment where
  choice := fun _ => { newId := "submission" }
  channel := true
  refused := fun _ => false
  messageCount := messageCount

end Publishing
