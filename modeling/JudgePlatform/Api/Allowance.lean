/-
# The monthly allowance of a plan

`submitSolution` lets a submission of a college through when the usage events of the
month are fewer than the plan allows.  The events are written by the judge, after the
submission was queued, accepted and judged.

* `Books` : the store of the API with the colleges, the times of the usage events, and the
  messages accepted so far, a history variable.
* `lower` : the check of the plan as the program that it is, in place of one request.
* `allowance_bounded` : in every interleaving in which a count lets a submission through only
  where the submissions that it misses still fit, no month accepts more than the plan allows.
-/
import JudgePlatform.Api.AttemptRuns
import JudgePlatform.Api.Plans
import JudgePlatform.Api.Rejudges
import JudgePlatform.Library.Expansion

namespace Billing

open Api (ObjectId ServiceError Solution Verdict)

/-! ## The check -/

/-- The start of the month of a time, by the clock of the API's host. -/
structure Calendar where
  startOfMonth : ℕ → ℕ
  mono : Monotone startOfMonth

inductive Request where
  /-- a request of the API or the judge that is not broken down here -/
  | base (r : Api.Request)
  | findCollege (id : ObjectId)
  /-- `new Date()` -/
  | today
  /-- `UsageEvent.countDocuments({ collegeId, createdAt: { $gte: since } })` -/
  | countUsage (collegeId : ObjectId) (since : ℕ)

def Reply : Request → Type
  | .base r => Api.Reply r
  | .findCollege _ => Option College
  | .today => ℕ
  | .countUsage _ _ => ℕ

abbrev ask {ε : Type} (r : Request) : Program Reply ε (Reply r) := Program.call r

structure UsageLimit where
  allowed : Bool
  limit : Option ℕ := none
  count : Option ℕ := none

/-- A failure of the database lets the submission pass. -/
def checkPlanUsageLimit {ε : Type} (cal : Calendar) (collegeId : ObjectId) :
    Program Reply ε UsageLimit :=
  if collegeId = "" then pure { allowed := true }
  else
    tryCatch
      (do
        let college : Option College ← ask (.findCollege collegeId)
        match college with
        | none => return { allowed := true }
        | some college =>
          match (getPlan college.planId).submissionQuotaPerMonth with
          | none => return { allowed := true }
          | some limit =>
            let now : ℕ ← ask .today
            let count : ℕ ← ask (.countUsage collegeId (cal.startOfMonth now))
            return { allowed := count < limit, limit, count })
      fun _ => pure { allowed := true }

/-- The requests of the API as they are made here: the database does not fail the check of
the plan. -/
def lower (cal : Calendar) : (r : Api.Request) → Program Reply ServiceError (Api.Reply r)
  | .checkLimit (.planUsage collegeId) =>
    UsageLimit.allowed <$> (checkPlanUsageLimit cal collegeId).sure
  | r => ask (.base r)

/-! ## The books -/

/-- The times are in milliseconds. -/
structure Books where
  store : Api.Store
  now : ℕ
  colleges : List College
  /-- the usage events, each with its college and its time -/
  usage : List (Option ObjectId × ℕ)
  /-- the messages that the queue accepted, each with its college and its time -/
  accepted : List (Option ObjectId × ℕ)

namespace Books

def college (s : Books) (id : ObjectId) : Option College := s.colleges.find? fun c => c.id = id

/-- The usage events of a college since a time. -/
def used (s : Books) (collegeId : ObjectId) (since : ℕ) : ℕ :=
  s.usage.countP fun e => e.1 = some collegeId ∧ since ≤ e.2

/-- The submissions of a college that were accepted in the month that starts at `month`. -/
def acceptedIn (s : Books) (cal : Calendar) (collegeId : ObjectId) (month : ℕ) : ℕ :=
  s.accepted.countP fun e => e.1 = some collegeId ∧ cal.startOfMonth e.2 = month

/-- The start of the current month. -/
def month (s : Books) (cal : Calendar) : ℕ := cal.startOfMonth s.now

/-- Keep the books of a request that was served. -/
def note (s : Books) (store : Api.Store) : Api.Request → Books
  | .publish m => { s with store, accepted := s.accepted ++ [(m.collegeId, s.now)] }
  | .recordUsage e => { s with store, usage := s.usage ++ [(e.collegeId, s.now)] }
  | .wait ms => { s with store, now := s.now + ms }
  | _ => { s with store }

end Books

def serve (c : Api.Choice) (s : Books) : (r : Request) → Except ServiceError (Reply r) × Books
  | .base r =>
    match Api.serve c s.store r with
    | (.ok x, store) => (.ok x, s.note store r)
    | (.error e, store) => (.error e, { s with store })
  | .findCollege id => (.ok (s.college id), s)
  | .today => (.ok s.now, s)
  | .countUsage collegeId since => (.ok (s.used collegeId since), s)

/-! ## Calls side by side -/

inductive Operation where
  | submitSolution (x : Solution)
  | processAndStoreResults (v : Verdict)
  | markSubmissionExecutionFailed (id reason : String)
  | wait (ms : ℕ)

inductive Outcome where
  | submission (d : Option Api.Submission)
  | done

/-- What a call runs, over the requests of the API. -/
def Operation.task (bson : GoValue → JsValue) : Operation → Api.Task Outcome
  | .submitSolution x => Outcome.submission <$> Api.submitSolution x
  | .processAndStoreResults v => (fun _ => .done) <$> Api.storeVerdict bson v
  | .markSubmissionExecutionFailed id reason =>
    (fun _ => .done) <$> Api.markSubmissionExecutionFailed id reason
  | .wait ms => (fun _ => .done) <$> Api.ask (.wait ms)

/-- The college that a submission names. -/
def Operation.college : Operation → Option ObjectId
  | .submitSolution x => x.collegeId
  | _ => none

/-- What a call has seen: the college that it found, whether a count let it through, and
whether its message was accepted. -/
structure Seen where
  found : Option (Option College) := none
  granted : Bool := false
  accepted : Bool := false

/-- The allowance of the college found. -/
def Seen.limit (v : Seen) : Option ℕ :=
  v.found.join.bind fun college => (getPlan college.planId).submissionQuotaPerMonth

def look (v : Seen) : (r : Request) → Reply r → Seen
  | .findCollege _, x => { v with found := some x }
  | .countUsage _ _, (n : ℕ) => { v with granted := v.limit.all (n < ·) }
  | .base (.publish _), _ => { v with accepted := true }
  | _, _ => v

def service (cal : Calendar) (bson : GoValue → JsValue) :
    Service Operation Books Api.Choice Seen Reply ServiceError Outcome where
  program := fun op => (op.task bson).expand (lower cal)
  serve := serve
  blank := {}
  look := look

abbrev Config := Service.Config Operation Books Seen Reply ServiceError Outcome

abbrev Call := Service.Call Operation Seen Reply ServiceError Outcome

/-- A call of the college that was let through and has not been accepted. -/
def promised (q : ObjectId) (c : Call) : Bool :=
  c.op.college = some q ∧ c.rest.pending.isSome ∧ c.view.granted ∧ !c.view.accepted

/-- The submissions of the month that a count misses: those accepted without an event yet, and
those let through and not accepted. -/
def backlog (cal : Calendar) (q : ObjectId) (s : Config) (count : ℕ) : ℕ :=
  s.store.acceptedIn cal q (s.store.month cal) + s.calls.countP (promised q) - count

/-- A count lets a submission through only where the submissions that it misses still fit. -/
def CountsBacklog (cal : Calendar) (q : ObjectId) (quota : ℕ) (s : Config) :
    Service.Action Operation Api.Choice → Prop
  | .start _ => True
  | .serve i _ => ∀ op v since next,
    s.calls[i]? = some ⟨op, v, .ask (.countUsage q since) next⟩ →
    s.store.used q since < quota →
    s.store.used q since + backlog cal q s (s.store.used q since) < quota

/-! ## What a submission asks -/

/-- What a submission has learned from the requests of the API. -/
structure Passed where
  checked : Bool := false
  allowed : Bool := false
  published : Bool := false

def lookPassed (w : Passed) : (r : Api.Request) → Api.Reply r → Passed
  | .checkLimit (.planUsage _), (allowed : Bool) => { w with checked := true, allowed }
  | .publish _, _ => { w with published := true }
  | _, _ => w

/-- Neither the plan is checked nor a message published. -/
def Aside : Api.Request → Prop
  | .checkLimit (.planUsage _) => False
  | .publish _ => False
  | _ => True

/-- The plan of the college is checked once and before the message, which is published once. -/
def Passes (college : Option ObjectId) (w : Passed) : Api.Request → Prop
  | .checkLimit (.planUsage c) => college = some c ∧ w = {}
  | .publish m => m.collegeId = college ∧ w.published = false ∧
      (college ≠ none → w.allowed = true)
  | _ => True

theorem passes_of_aside {college : Option ObjectId} {w : Passed} {r : Api.Request} (h : Aside r) :
    Passes college w r := by
  cases r with
  | checkLimit l =>
    cases l with
    | planUsage c => exact h.elim
    | _ => exact trivial
  | publish m => exact h.elim
  | _ => exact trivial

theorem lookPassed_of_aside {r : Api.Request} (w : Passed) (x : Api.Reply r) (h : Aside r) :
    lookPassed w r x = w := by
  cases r with
  | checkLimit l =>
    cases l with
    | planUsage c => exact h.elim
    | _ => rfl
  | publish m => exact h.elim
  | _ => rfl

/-- A part of a submission that is aside leaves what was learned. -/
theorem passes_frame {α View : Type} {college : Option ObjectId} {w : Passed} {t : Api.Task α}
    {look : View → (r : Api.Request) → Api.Reply r → View}
    {Q : View → Except ServiceError α → Prop} {v : View}
    (h : t.Obeys look (fun _ r => Aside r) Q v) :
    t.Obeys lookPassed (Passes college) (fun u _ => u = w) w :=
  h.frame (fun _ x hr => lookPassed_of_aside w x hr) fun _ hr => passes_of_aside hr

theorem aside_of_isLookup {r : Api.Request} (h : r.isLookup = true) : Aside r := by
  cases r with
  | now => exact trivial
  | findAttempt id scope => exact trivial
  | findAssessment id scope => exact trivial
  | _ => cases h

theorem aside_of_isVerdict {r : Api.Request} (h : r.isVerdict = true) : Aside r := by
  cases r with
  | checkLimit l => cases h
  | publish m => cases h
  | _ => exact trivial

theorem checkLimits_passes (x : Solution) :
    (Api.checkLimits x).Obeys lookPassed (Passes x.collegeId)
      (fun w y => y = .ok () → w.published = false ∧ (x.collegeId ≠ none → w.allowed = true)) {} := by
  refine Program.Obeys.call_bind trivial (fun (_ : Bool) => ?_) fun _ h => by cases h
  refine Api.obeys_require (fun _ => ?_) fun h => by cases h
  cases hcollege : x.collegeId with
  | none => exact fun _ => ⟨rfl, fun h => absurd rfl h⟩
  | some collegeId =>
    refine Program.Obeys.call_bind trivial (fun (_ : Bool) => ?_) fun _ h => by cases h
    refine Api.obeys_require (fun _ => ?_) fun h => by cases h
    refine Program.Obeys.call_bind ⟨rfl, rfl⟩ (fun (allowed : Bool) => ?_) fun _ h => by cases h
    unfold Api.require
    cases allowed with
    | true => exact fun _ => ⟨rfl, fun _ => rfl⟩
    | false => exact fun h => by cases h

theorem submitSolution_passes (x : Solution) :
    (Api.submitSolution x).Obeys lookPassed (Passes x.collegeId) (fun _ _ => True) {} := by
  refine Program.Obeys.bind (passes_frame (Api.validateAssessmentSubmission_obeys
    (P := fun _ r => Aside r) _ _ _ _ _ (fun _ _ => aside_of_isLookup) fun _ _ _ _ _ => trivial))
    ?_ fun _ _ _ => trivial
  rintro w _ rfl
  refine Program.Obeys.bind (checkLimits_passes x) (fun w _ hw => ?_) fun _ _ _ => trivial
  refine Program.Obeys.call_bind trivial (fun found => ?_) fun _ => trivial
  cases found with
  | none => exact trivial
  | some problem =>
    refine Program.Obeys.bind (passes_frame (Api.checkPremium_obeys
      (P := fun _ r => Aside r) (v := {}) x problem fun _ _ => trivial)) ?_ fun _ _ _ => trivial
    rintro u _ rfl
    refine Program.Obeys.call_bind trivial (fun submission => ?_) fun _ => trivial
    refine Program.Obeys.bind (passes_frame (Api.logSubmission_obeys
      (P := fun _ r => Aside r) (v := {}) x problem submission (fun _ _ => aside_of_isLookup)
        fun _ _ _ _ _ _ _ => trivial)) ?_ fun _ _ _ => trivial
    rintro u _ rfl
    refine Api.obeys_require (fun _ => ?_) trivial
    obtain ⟨hpublished, hallowed⟩ := hw rfl
    exact Program.Obeys.call_bind ⟨rfl, hpublished, hallowed⟩ (fun _ => trivial) fun _ => trivial

theorem task_passes (bson : GoValue → JsValue) (op : Operation) :
    (op.task bson).Obeys lookPassed (Passes op.college) (fun _ _ => True) {} := by
  have haside : ∀ {t : Api.Task Unit}, t.Obeys Api.SourceView.look (fun _ r => Aside r)
      (fun _ _ => True) {} → ((fun _ => Outcome.done) <$> t).Obeys lookPassed (Passes none)
        (fun _ _ => True) {} := fun ht =>
    Program.Obeys.map ((passes_frame ht).mono (fun _ _ h => h) fun _ _ _ => trivial)
  cases op with
  | submitSolution x => exact Program.Obeys.map (submitSolution_passes x)
  | processAndStoreResults v =>
    exact haside (Api.storeVerdict_obeys bson v (fun _ _ => aside_of_isVerdict)
      fun _ _ _ _ => trivial)
  | markSubmissionExecutionFailed id reason =>
    exact haside (Api.markSubmissionExecutionFailed_obeys id reason fun _ _ => aside_of_isVerdict)
  | wait ms =>
    exact Program.Obeys.map (Program.Obeys.call trivial (fun _ => trivial) fun _ => trivial)

/-! ### The check of the plan -/

/-- Nothing bounds the submissions of the college that a call names. -/
def Unbounded (college : Option ObjectId) (v : Seen) : Prop :=
  college = some "" ∨ ∃ x, v.found = some x ∧ v.limit = none

/-- A call counts the usage of its college before its message, and only once; it publishes
for its college, once, and when the count let it through. -/
def Asks (college : Option ObjectId) (v : Seen) : Request → Prop
  | .findCollege id => college = some id
  | .countUsage id _ =>
    college = some id ∧ v.granted = false ∧ v.accepted = false ∧ v.limit.isSome
  | .base (.publish m) => m.collegeId = college ∧ v.accepted = false ∧
      (college ≠ none → Unbounded college v ∨ v.granted = true)
  | _ => True

/-- What was learned from the requests of the API is what was seen below. -/
structure Agrees (college : Option ObjectId) (w : Passed) (v : Seen) : Prop where
  unchecked : w.checked = false → v.granted = false
  accepted : v.accepted = w.published
  allowed : w.allowed = true → Unbounded college v ∨ v.granted = true

section Lower

variable {cal : Calendar} {college : Option ObjectId} {w : Passed} {v : Seen}

theorem checkPlanUsageLimit_obeys (hv : v.granted = false ∧ v.accepted = false) (c : ObjectId) :
    (checkPlanUsageLimit cal c : Program Reply Empty UsageLimit).Obeys look
      (fun u r => Asks (some c) u r ∧ u.granted = false ∧ u.accepted = false)
      (fun u x => u.accepted = false ∧ ∀ y, x = .ok y → y.allowed = true →
        Unbounded (some c) u ∨ u.granted = true) v := by
  unfold checkPlanUsageLimit
  refine .ite (fun hc => ⟨hv.2, fun _ _ _ => Or.inl (Or.inl (congrArg some hc))⟩) fun _ => ?_
  have htry : ∀ {Q : Seen → Except Empty UsageLimit → Prop} {t : Program Reply Empty UsageLimit}
      {h : Empty → Program Reply Empty UsageLimit},
      t.Obeys look (fun u r => Asks (some c) u r ∧ u.granted = false ∧ u.accepted = false) Q v →
      (tryCatch t h).Obeys look
        (fun u r => Asks (some c) u r ∧ u.granted = false ∧ u.accepted = false) Q v :=
    fun ht => ht.tryCatch (fun _ _ h => h) fun _ e => e.elim
  refine htry (Program.Obeys.call_bind ⟨rfl, hv⟩ (fun x => ?_) fun e => e.elim)
  cases x with
  | none => exact ⟨hv.2, fun _ _ _ => Or.inl (Or.inr ⟨none, rfl, rfl⟩)⟩
  | some college =>
    cases hquota : (getPlan college.planId).submissionQuotaPerMonth with
    | none =>
      simp only [hquota]
      exact ⟨hv.2, fun _ _ _ => Or.inl (Or.inr ⟨some college, rfl, hquota⟩)⟩
    | some limit =>
      simp only [hquota]
      refine Program.Obeys.call_bind ⟨trivial, hv⟩ (fun (now : ℕ) => ?_) fun e => e.elim
      have hlimit : Seen.limit { v with found := some (some college) } = some limit := hquota
      refine Program.Obeys.call_bind ⟨⟨rfl, hv.1, hv.2, ?_⟩, hv⟩ (fun (count : ℕ) => ?_)
        fun e => e.elim
      · show (Seen.limit { v with found := some (some college) }).isSome
        rw [hlimit]
        rfl
      · refine ⟨hv.2, fun y hy hallowed => Or.inr ?_⟩
        rw [← Except.ok.inj hy] at hallowed
        show (Seen.limit { v with found := some (some college) }).all (count < ·) = true
        rw [hlimit]
        exact hallowed

theorem lower_of_aside {r : Api.Request} (h : Aside r) : lower cal r = ask (.base r) := by
  cases r with
  | checkLimit l =>
    cases l with
    | planUsage c => exact h.elim
    | _ => rfl
  | publish m => exact h.elim
  | _ => rfl

theorem asks_of_aside {r : Api.Request} (h : Aside r) : Asks college v (.base r) := by
  cases r with
  | publish m => exact h.elim
  | _ => exact trivial

theorem look_of_aside {r : Api.Request} (x : Api.Reply r) (h : Aside r) :
    look v (.base r) x = v := by
  cases r with
  | publish m => exact h.elim
  | _ => rfl

theorem lower_obeys {r : Api.Request} (hagrees : Agrees college w v) (hpasses : Passes college w r) :
    (lower cal r).Obeys look (Asks college)
      (fun u x => Agrees college (Program.told lookPassed w r x) u) v := by
  have haside : Aside r → (lower cal r).Obeys look (Asks college)
      (fun u x => Agrees college (Program.told lookPassed w r x) u) v := by
    intro h
    rw [lower_of_aside h]
    refine Program.Obeys.call (asks_of_aside h) (fun x => ?_) fun e => hagrees
    show Agrees college (lookPassed w r x) (look v (.base r) x)
    rw [lookPassed_of_aside w x h, look_of_aside x h]
    exact hagrees
  cases r with
  | checkLimit l =>
    cases l with
    | planUsage c =>
      obtain ⟨rfl, rfl⟩ := hpasses
      have hcheck := @checkPlanUsageLimit_obeys cal v
        ⟨hagrees.unchecked rfl, hagrees.accepted⟩ c
      have hsure : ((checkPlanUsageLimit cal c).sure : Program Reply ServiceError UsageLimit).Obeys
          look (fun u r => Asks (some c) u r ∧ u.granted = false ∧ u.accepted = false)
          (fun u x => Agrees (some c) (Program.told lookPassed {} (.checkLimit (.planUsage c))
            (x.map UsageLimit.allowed)) u) v := by
        refine hcheck.sure (fun u y hu => ?_) fun u r e hu => ?_
        · exact ⟨fun h => (Bool.noConfusion h), hu.1, hu.2 y rfl⟩
        · exact ⟨fun _ => hu.2.1, hu.2.2, fun h => (Bool.noConfusion h)⟩
      exact Program.Obeys.map (hsure.mono (fun _ _ h => h.1) fun _ _ h => h)
    | _ => exact haside trivial
  | publish m =>
    obtain ⟨hcollege, hpublished, hallowed⟩ := hpasses
    refine Program.Obeys.call ⟨hcollege, hagrees.accepted.trans hpublished,
      fun h => hagrees.allowed (hallowed h)⟩ (fun _ => ?_) fun e => hagrees
    exact ⟨hagrees.unchecked, rfl, hagrees.allowed⟩
  | _ => exact haside trivial

end Lower

theorem program_obeys (cal : Calendar) (bson : GoValue → JsValue) (op : Operation) :
    ((op.task bson).expand (lower cal)).Obeys look (Asks op.college) (fun _ _ => True) {} :=
  ((task_passes bson op).expand (fun _ _ _ hagrees hpasses => lower_obeys hagrees hpasses)
    ⟨fun _ => rfl, rfl, fun h => (Bool.noConfusion h)⟩).mono (fun _ _ h => h) fun _ _ _ => trivial

/-! ## The bound -/

structure AllowanceInv (cal : Calendar) (q : ObjectId) (quota : ℕ) (s : Config) : Prop where
  current : s.store.acceptedIn cal q (s.store.month cal) + s.calls.countP (promised q) ≤ quota
  months : ∀ month, s.store.acceptedIn cal q month ≤ quota
  times : ∀ e ∈ s.store.accepted, e.2 ≤ s.store.now
  college : ∃ c, s.store.college q = some c ∧ (getPlan c.planId).submissionQuotaPerMonth = some quota
  found : ∀ c ∈ s.calls, c.op.college = some q → ∀ x, c.view.found = some x →
    x = s.store.college q

section Serve

variable {c : Api.Choice} {s : Books}

/-- A request of the API is noted in the books when it is served, and only then. -/
theorem serve_base (c : Api.Choice) (s : Books) (r : Api.Request) :
    (∃ x, serve c s (.base r) = (.ok x, s.note (Api.serve c s.store r).2 r)) ∨
    ∃ e, serve c s (.base r) = (.error e, { s with store := (Api.serve c s.store r).2 }) := by
  unfold serve
  simp only
  rcases Api.serve c s.store r with ⟨e | x, store⟩
  · exact Or.inr ⟨e, rfl⟩
  · exact Or.inl ⟨x, rfl⟩

/-- No request changes the colleges. -/
theorem colleges_serve (c : Api.Choice) (s : Books) (r : Request) :
    (serve c s r).2.colleges = s.colleges := by
  cases r with
  | base r =>
    rcases serve_base c s r with ⟨x, hx⟩ | ⟨e, he⟩
    · rw [hx]
      cases r <;> rfl
    · rw [he]
  | _ => rfl

/-- Only a published message is accepted. -/
theorem accepted_serve (c : Api.Choice) (s : Books) {r : Request}
    (hr : ∀ m, r ≠ .base (.publish m)) : (serve c s r).2.accepted = s.accepted := by
  cases r with
  | base r =>
    rcases serve_base c s r with ⟨x, hx⟩ | ⟨e, he⟩
    · rw [hx]
      cases r with
      | publish m => exact absurd rfl (hr m)
      | _ => rfl
    · rw [he]
  | _ => rfl

/-- Time goes on, or stands still. -/
theorem now_serve (c : Api.Choice) (s : Books) (r : Request) : s.now ≤ (serve c s r).2.now := by
  cases r with
  | base r =>
    rcases serve_base c s r with ⟨x, hx⟩ | ⟨e, he⟩
    · rw [hx]
      cases r with
      | wait ms => exact Nat.le_add_right _ _
      | _ => exact le_refl _
    · rw [he]
  | _ => exact le_refl _

/-- What was accepted until now is of no later month. -/
theorem acceptedIn_eq_zero {cal : Calendar} {q : ObjectId} {month : ℕ}
    (htimes : ∀ e ∈ s.accepted, e.2 ≤ s.now) (hmonth : s.month cal < month) :
    s.acceptedIn cal q month = 0 := by
  unfold Books.acceptedIn
  rw [List.countP_eq_zero]
  intro e he hcount
  rw [decide_eq_true_eq] at hcount
  have hle : cal.startOfMonth e.2 ≤ s.month cal := cal.mono (htimes e he)
  omega

end Serve

section Bound

variable {cal : Calendar} {bson : GoValue → JsValue} {q : ObjectId} {quota : ℕ} {s : Config}
  {i : ℕ} {e : Api.Choice} {op : Operation} {v : Seen}

/-- What a call has found out about its college is so. -/
theorem AllowanceInv.found_next {r : Request} {next : Except ServiceError (Reply r) →
      Program Reply ServiceError Outcome}
    (hinv : AllowanceInv cal q quota s) (hi : s.calls[i]? = some ⟨op, v, .ask r next⟩)
    (hasks : Asks op.college v r) (hop : op.college = some q) (x : Option College)
    (hx : ((service cal bson).hear v r (serve e s.store r).1).found = some x) :
    x = s.store.college q := by
  have hold : v.found = some x → x = s.store.college q :=
    fun h => hinv.found _ (List.mem_of_getElem? hi) hop x h
  cases r with
  | findCollege id =>
    obtain rfl : q = id := Option.some.inj (hop.symm.trans hasks)
    exact (Option.some.inj hx).symm
  | base r =>
    rcases serve_base e s.store r with ⟨y, hy⟩ | ⟨err, herr⟩
    · rw [hy] at hx
      cases r <;> exact hold hx
    · rw [herr] at hx
      exact hold hx
  | _ => exact hold hx

/-- A submission that is published for the college was let through. -/
theorem AllowanceInv.granted (hinv : AllowanceInv cal q quota s) {m : Api.JudgeMessage}
    {next : Except ServiceError Unit → Program Reply ServiceError Outcome}
    (hq : q ≠ "") (hi : s.calls[i]? = some ⟨op, v, .ask (.base (.publish m)) next⟩)
    (hasks : Asks op.college v (.base (.publish m))) (hm : m.collegeId = some q) :
    op.college = some q ∧ v.granted = true ∧ v.accepted = false := by
  obtain ⟨hcollege, haccepted, hgranted⟩ := hasks
  have hop : op.college = some q := hcollege.symm.trans hm
  refine ⟨hop, ?_, haccepted⟩
  rcases hgranted (by rw [hop]; exact Option.some_ne_none q) with (hnone | ⟨x, hfound, hlimit⟩) | h
  · exact absurd (Option.some.inj (hop.symm.trans hnone)) hq
  · obtain ⟨c, hc, hplan⟩ := hinv.college
    have hx := hinv.found _ (List.mem_of_getElem? hi) hop x hfound
    unfold Seen.limit at hlimit
    rw [hfound, hx, hc] at hlimit
    cases hlimit.symm.trans hplan
  · exact h

theorem promised_iff {p : Program Reply ServiceError Outcome} :
    promised q ⟨op, v, p⟩ = true ↔
      op.college = some q ∧ p.pending.isSome = true ∧ v.granted = true ∧ v.accepted = false := by
  unfold promised
  simp

/-- A call that has learned nothing new promises no more. -/
theorem promised_next {w : Seen} {r : Request}
    {next : Except ServiceError (Reply r) → Program Reply ServiceError Outcome}
    {p : Program Reply ServiceError Outcome} (hgranted : w.granted = true → v.granted = true)
    (haccepted : w.accepted = v.accepted) (h : promised q ⟨op, w, p⟩ = true) :
    promised q ⟨op, v, .ask r next⟩ = true := by
  obtain ⟨hop, -, hw, haccept⟩ := promised_iff.mp h
  exact promised_iff.mpr ⟨hop, rfl, hgranted hw, haccepted.symm.trans haccept⟩

/-- Where nothing is accepted and no more is promised, the passing of time keeps the bound. -/
theorem AllowanceInv.quiet (hinv : AllowanceInv cal q quota s) (s' : Config)
    (haccepted : s'.store.accepted = s.store.accepted) (hnow : s.store.now ≤ s'.store.now)
    (hpromised : s'.calls.countP (promised q) ≤ s.calls.countP (promised q)) :
    s'.store.acceptedIn cal q (s'.store.month cal) + s'.calls.countP (promised q) ≤ quota ∧
      (∀ month, s'.store.acceptedIn cal q month ≤ quota) ∧
      ∀ e ∈ s'.store.accepted, e.2 ≤ s'.store.now := by
  have hin : ∀ month, s'.store.acceptedIn cal q month = s.store.acceptedIn cal q month := by
    intro month
    unfold Books.acceptedIn
    rw [haccepted]
  have hcurrent := hinv.current
  refine ⟨?_, fun month => ?_, fun e he => ?_⟩
  · rw [hin]
    have hle : s.store.month cal ≤ s'.store.month cal := cal.mono hnow
    rcases Nat.lt_or_eq_of_le hle with hlt | heq
    · rw [acceptedIn_eq_zero hinv.times hlt]
      omega
    · rw [← heq]
      omega
  · rw [hin]
    exact hinv.months month
  · rw [haccepted] at he
    exact (hinv.times e he).trans hnow

/-- An accepted submission was promised before. -/
theorem AllowanceInv.accept (hinv : AllowanceInv cal q quota s) {st : Books}
    {college : Option ObjectId} {calls : List Call}
    (haccepted : st.accepted = s.store.accepted ++ [(college, s.store.now)])
    (hnow : st.now = s.store.now)
    (hpromised : calls.countP (promised q) + (if college = some q then 1 else 0) ≤
      s.calls.countP (promised q)) :
    st.acceptedIn cal q (st.month cal) + calls.countP (promised q) ≤ quota ∧
      (∀ month, st.acceptedIn cal q month ≤ quota) ∧ ∀ e ∈ st.accepted, e.2 ≤ st.now := by
  have hin : ∀ month, st.acceptedIn cal q month = s.store.acceptedIn cal q month +
      if college = some q ∧ s.store.month cal = month then 1 else 0 := by
    intro month
    unfold Books.acceptedIn
    rw [haccepted, List.countP_append, List.countP_singleton]
    show _ + (if decide (college = some q ∧ s.store.month cal = month) = true then 1 else 0) = _
    by_cases hthis : college = some q ∧ s.store.month cal = month
    · rw [if_pos hthis, if_pos (decide_eq_true hthis)]
    · rw [if_neg hthis, decide_eq_false hthis]
      rfl
  have hmonth : st.month cal = s.store.month cal := congrArg cal.startOfMonth hnow
  have hcurrent := hinv.current
  have hnext : st.acceptedIn cal q (s.store.month cal) + calls.countP (promised q) ≤ quota := by
    have hthis := hin (s.store.month cal)
    by_cases hcollege : college = some q
    · rw [if_pos ⟨hcollege, rfl⟩] at hthis
      rw [if_pos hcollege] at hpromised
      omega
    · rw [if_neg fun h => hcollege h.1] at hthis
      rw [if_neg hcollege] at hpromised
      omega
  refine ⟨by rwa [hmonth], fun month => ?_, fun e he => ?_⟩
  · by_cases hthis : s.store.month cal = month
    · rw [← hthis]
      omega
    · rw [hin, if_neg fun h => hthis h.2]
      exact hinv.months month
  · rw [haccepted] at he
    rw [hnow]
    rcases List.mem_append.mp he with he | he
    · exact hinv.times e he
    · rw [List.mem_singleton.mp he]

/-- A count that lets a submission through leaves room for it. -/
theorem AllowanceInv.grant (hinv : AllowanceInv cal q quota s) {since : ℕ} {w : Seen}
    {next : Except ServiceError ℕ → Program Reply ServiceError Outcome}
    {p : Program Reply ServiceError Outcome}
    (hi : s.calls[i]? = some ⟨op, v, .ask (.countUsage q since) next⟩)
    (hop : op.college = some q) (hlimit : v.limit.isSome = true)
    (hcounts : CountsBacklog cal q quota s (.serve i e))
    (hw : w = { v with granted := v.limit.all (s.store.used q since < ·) })
    (hp : promised q ⟨op, w, p⟩ = true) :
    s.store.acceptedIn cal q (s.store.month cal) + s.calls.countP (promised q) < quota := by
  obtain ⟨-, -, hgranted, -⟩ := promised_iff.mp hp
  rw [hw] at hgranted
  obtain ⟨l, hl⟩ := Option.isSome_iff_exists.mp hlimit
  obtain ⟨c, hc, hplan⟩ := hinv.college
  have hquota : l = quota := by
    unfold Seen.limit at hl
    cases hfound : v.found with
    | none =>
      rw [hfound] at hl
      cases hl
    | some x =>
      have hx := hinv.found _ (List.mem_of_getElem? hi) hop x hfound
      rw [hfound, hx, hc] at hl
      exact Option.some.inj (hl.symm.trans hplan)
  have hcount : s.store.used q since < quota := by
    have hall : v.limit.all (s.store.used q since < ·) = true := hgranted
    rwa [hl, hquota, Option.all_some, decide_eq_true_eq] at hall
  have hroom := hcounts op v since next hi hcount
  unfold backlog at hroom
  omega

/-- **One step keeps the bound.** -/
theorem AllowanceInv.step (hq : q ≠ "") {s' : Config} {act : Service.Action Operation Api.Choice}
    (hobeys : Service.CallsObey (service cal bson) (fun op => Asks op.college)
      (fun _ _ _ => True) s)
    (hinv : AllowanceInv cal q quota s) (hcounts : CountsBacklog cal q quota s act)
    (hstep : (service cal bson).step s act = some s') : AllowanceInv cal q quota s' := by
  obtain ⟨op, -, rfl⟩ | ⟨i, e, op, v, r, next, rfl, hi, rfl⟩ := Service.step_cases hstep
  · have hnew : promised q ((service cal bson).begin op) = false := by
      unfold promised
      simp [Service.begin, service]
    have hpromised : (s.calls ++ [(service cal bson).begin op]).countP (promised q) =
        s.calls.countP (promised q) := by
      rw [List.countP_append, List.countP_singleton, hnew]
      rfl
    obtain ⟨hcurrent, hmonths, htimes⟩ := hinv.quiet
      ⟨s.store, s.calls ++ [(service cal bson).begin op]⟩ rfl (le_refl _) (le_of_eq hpromised)
    refine ⟨hcurrent, hmonths, htimes, hinv.college, fun c hc hop x hx => ?_⟩
    rcases List.mem_append.mp hc with hc | hc
    · exact hinv.found c hc hop x hx
    · rw [List.mem_singleton.mp hc] at hx
      cases hx
  · have hasks : Asks op.college v r := hobeys.request hi
    let w := (service cal bson).hear v r (serve e s.store r).1
    let p := next (serve e s.store r).1
    let st := (serve e s.store r).2
    have hstore : st.college q = s.store.college q := by
      show Books.college _ q = _
      unfold Books.college
      rw [colleges_serve]
    have hcount : (s.calls.set i ⟨op, w, p⟩).countP (promised q) +
        (if promised q ⟨op, v, .ask r next⟩ then 1 else 0) =
        s.calls.countP (promised q) + (if promised q ⟨op, w, p⟩ then 1 else 0) :=
      List.countP_set_add _ hi
    have hbound : st.acceptedIn cal q (st.month cal) +
          (s.calls.set i ⟨op, w, p⟩).countP (promised q) ≤ quota ∧
        (∀ month, st.acceptedIn cal q month ≤ quota) ∧ ∀ e ∈ st.accepted, e.2 ≤ st.now := by
      have hquiet : st.accepted = s.store.accepted →
          (promised q ⟨op, w, p⟩ = true → promised q ⟨op, v, .ask r next⟩ = true) →
          st.acceptedIn cal q (st.month cal) +
            (s.calls.set i ⟨op, w, p⟩).countP (promised q) ≤ quota ∧
          (∀ month, st.acceptedIn cal q month ≤ quota) ∧ ∀ e ∈ st.accepted, e.2 ≤ st.now := by
        intro haccepted hp
        refine hinv.quiet ⟨st, s.calls.set i ⟨op, w, p⟩⟩ haccepted (now_serve e s.store r) ?_
        show List.countP _ (s.calls.set i ⟨op, w, p⟩) ≤ _
        by_cases hw : promised q ⟨op, w, p⟩ = true
        · rw [if_pos hw, if_pos (hp hw)] at hcount
          omega
        · rw [if_neg hw] at hcount
          omega
      cases r with
      | base r =>
        by_cases hpublish : ∃ m, r = .publish m
        · obtain ⟨m, rfl⟩ := hpublish
          rcases serve_base e s.store (.publish m) with ⟨x, hx⟩ | ⟨err, herr⟩
          · have hst : st = s.store.note (Api.serve e s.store.store (.publish m)).2 (.publish m) :=
              congrArg Prod.snd hx
            have hw : w = { v with accepted := true } := by
              show (service cal bson).hear v _ (serve e s.store (.base (.publish m))).1 = _
              rw [hx]
              rfl
            have hnew : ¬promised q ⟨op, w, p⟩ = true := by
              intro h
              have haccepted := (promised_iff.mp h).2.2.2
              rw [hw] at haccepted
              cases haccepted
            have haccepts : st.accepted = s.store.accepted ++ [(m.collegeId, s.store.now)] := by
              rw [hst]
              rfl
            refine hinv.accept haccepts (by rw [hst]; rfl) ?_
            rw [if_neg hnew] at hcount
            by_cases hm : m.collegeId = some q
            · obtain ⟨hop, hgranted, haccepted⟩ := hinv.granted hq hi hasks hm
              rw [if_pos (promised_iff.mpr ⟨hop, rfl, hgranted, haccepted⟩)] at hcount
              rw [if_pos hm]
              omega
            · rw [if_neg hm]
              omega
          · have hst : st = { s.store with store := (Api.serve e s.store.store (.publish m)).2 } :=
              congrArg Prod.snd herr
            refine hquiet (by rw [hst]) ?_
            have hw : w = v := by
              show (service cal bson).hear v _ (serve e s.store (.base (.publish m))).1 = v
              rw [herr]
              rfl
            rw [hw]
            exact promised_next id rfl
        · refine hquiet (accepted_serve e s.store fun m h => hpublish ⟨m, Request.base.inj h⟩) ?_
          have hw : w = v := by
            show (service cal bson).hear v _ (serve e s.store (.base r)).1 = v
            cases (serve e s.store (.base r)).1 with
            | error err => rfl
            | ok x =>
              cases r with
              | publish m => exact absurd ⟨m, rfl⟩ hpublish
              | _ => rfl
          rw [hw]
          exact promised_next id rfl
      | countUsage id since =>
        obtain ⟨hop, hgranted, haccepted, hlimit⟩ := hasks
        by_cases hp : promised q ⟨op, w, p⟩ = true
        · obtain rfl : id = q := Option.some.inj (hop.symm.trans (promised_iff.mp hp).1)
          have hroom := hinv.grant hi hop hlimit hcounts rfl hp
          have hold : ¬promised id ⟨op, v, .ask (.countUsage id since) next⟩ = true := by
            intro h
            rw [(promised_iff.mp h).2.2.1] at hgranted
            cases hgranted
          rw [if_pos hp, if_neg hold] at hcount
          refine ⟨?_, hinv.months, hinv.times⟩
          show s.store.acceptedIn cal id (s.store.month cal) + _ ≤ quota
          omega
        · exact hquiet rfl fun h => absurd h hp
      | _ => exact hquiet (accepted_serve e s.store fun m h => by cases h) (promised_next id rfl)
    refine ⟨hbound.1, hbound.2.1, hbound.2.2, ?_, fun c hc hop x hx => ?_⟩
    · show ∃ c, st.college q = some c ∧ _
      rw [hstore]
      exact hinv.college
    · show x = st.college q
      rw [hstore]
      rcases List.mem_or_eq_of_mem_set hc with hc | rfl
      · exact hinv.found c hc hop x hx
      · exact hinv.found_next hi hasks hop x hx

end Bound

/-- The college exists, and in no month more of its submissions were accepted than its plan
allows. -/
structure Within (cal : Calendar) (q : ObjectId) (quota : ℕ) (s : Books) : Prop where
  named : q ≠ ""
  months : ∀ month, s.acceptedIn cal q month ≤ quota
  times : ∀ e ∈ s.accepted, e.2 ≤ s.now
  college : ∃ c, s.college q = some c ∧ (getPlan c.planId).submissionQuotaPerMonth = some quota

def system (cal : Calendar) (bson : GoValue → JsValue) (q : ObjectId) (quota : ℕ) :=
  (service cal bson).system (Within cal q quota)

/-- **The allowance of every month**: in every interleaving of submissions and the judge, whose
counts let a submission through only where those that the count misses still fit, no more
submissions of the college are accepted in a month than its plan allows. -/
theorem allowance_bounded {cal : Calendar} {bson : GoValue → JsValue} {q : ObjectId} {quota : ℕ}
    {s : Config} (hs : (system cal bson q quota).ReachableVia (CountsBacklog cal q quota) s)
    (month : ℕ) : s.store.acceptedIn cal q month ≤ quota := by
  suffices hinv : q ≠ "" ∧ AllowanceInv cal q quota s from hinv.2.months month
  induction hs with
  | @init s h =>
    obtain ⟨⟨hnamed, hmonths, htimes, hcollege⟩, hcalls⟩ := h
    refine ⟨hnamed, ?_, hmonths, htimes, hcollege, fun c hc => ?_⟩
    · rw [hcalls]
      exact hmonths _
    · rw [hcalls] at hc
      cases hc
  | step hs hcounts hstep ih =>
    exact ⟨ih.1, ih.2.step ih.1 (Service.reachable_callsObey (program_obeys cal bson) hs) hcounts
      hstep⟩

/-! ### The last submission of a month -/

/-- January 1970 in UTC, and months of its length. -/
def january : Calendar where
  startOfMonth := fun now => now / 2678400000 * 2678400000
  mono := fun _ _ h => Nat.mul_le_mul_right _ (Nat.div_le_div_right h)

def aProblem : Api.Problem where
  id := "problem"
  title := "Sum"
  problemType := none
  functionName := none
  compareConfig := none
  testCases := []
  isPremium := false

/-- All submissions of the month but one were accepted and judged. -/
def oneLeft : Books where
  store := ⟨.zero, [], [], [], [aProblem], [], [], [], [], []⟩
  now := 0
  colleges := [⟨"college", none⟩]
  usage := List.replicate 499 (some "college", 0)
  accepted := List.replicate 499 (some "college", 0)

theorem oneLeft_within : Within january "college" 500 oneLeft := by
  refine ⟨by decide, fun month => ?_, fun e he => ?_, _, rfl, rfl⟩
  · exact List.countP_le_length.trans (by decide +kernel)
  · rw [List.eq_of_mem_replicate he]
    exact le_refl 0

def practice : Solution where
  problemId := "problem"
  code := "print()"
  language := "python"
  userId := "student"
  collegeId := some "college"
  assessmentId := none
  attemptId := none
  requestId := none
  externalStudentId := none
  externalAssessmentId := none

/-- The `i`-th call submits, with `id` for its record. -/
def submits (i : ℕ) (id : ObjectId) : List (Service.Action Operation Api.Choice) :=
  .start (.submitSolution practice) :: List.replicate 8 (.serve i { newId := id })

/-- What `CountsBacklog` asks, as a check. -/
def countsBacklog (cal : Calendar) (q : ObjectId) (quota : ℕ) (s : Config) :
    Service.Action Operation Api.Choice → Bool
  | .start _ => true
  | .serve i _ =>
    match s.calls[i]? with
    | some ⟨_, _, .ask (.countUsage _ since) _⟩ =>
      s.store.used q since + backlog cal q s (s.store.used q since) < quota
    | _ => true

theorem countsBacklog_of_check {cal : Calendar} {q : ObjectId} {quota : ℕ} (s : Config)
    (a : Service.Action Operation Api.Choice) (h : countsBacklog cal q quota s a = true) :
    CountsBacklog cal q quota s a := by
  cases a with
  | start op => exact trivial
  | serve i c =>
    intro op v since next hi _
    simp only [countsBacklog, hi, decide_eq_true_eq] at h
    exact h

/-- The last one is accepted. -/
theorem allowance_bounded_last : ∃ s : Config, s.store.acceptedIn january "college" 0 = 500 ∧
    s.store.acceptedIn january "college" 0 ≤ 500 := by
  let T := system january (fun _ => .null) "college" 500
  have heval : (T.runWhen (countsBacklog january "college" 500) ⟨oneLeft, []⟩
      (submits 0 "first")).map (fun s => s.store.acceptedIn january "college" 0) = some 500 := by
    decide +kernel
  obtain ⟨s, hrun, haccepted⟩ := Option.map_eq_some_iff.mp heval
  have hinit : T.ReachableVia (CountsBacklog january "college" 500) ⟨oneLeft, []⟩ :=
    .init ⟨oneLeft_within, rfl⟩
  exact ⟨s, haccepted, allowance_bounded
    (hinit.trans (TransitionSystem.runVia_of_runWhen countsBacklog_of_check hrun)) 0⟩

/-- **A submission that waits to be judged is not counted**, and one more than the plan allows
is accepted. -/
theorem allowance_bounded_fails : ∃ s : Config,
    (system january (fun _ => .null) "college" 500).Reachable s ∧
    ¬s.store.acceptedIn january "college" 0 ≤ 500 := by
  let T := system january (fun _ => .null) "college" 500
  have heval : (T.run ⟨oneLeft, []⟩ (submits 0 "first" ++ submits 1 "second")).map
      (fun s => s.store.acceptedIn january "college" 0) = some 501 := by decide +kernel
  obtain ⟨s, hrun, haccepted⟩ := Option.map_eq_some_iff.mp heval
  have hinit : T.Reachable ⟨oneLeft, []⟩ := .init ⟨oneLeft_within, rfl⟩
  refine ⟨s, hinit.run hrun, ?_⟩
  rw [haccepted]
  decide

end Billing
