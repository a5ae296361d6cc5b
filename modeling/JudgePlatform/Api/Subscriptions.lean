/-
# Stripe's events

`handleStripeEvent` (`services/billing.service.js`) writes the plan and the status of a college
from what an event says, whatever was delivered before it.

* `College.after` : what an event of a college's subscription does to the college.
* `planId_deliver`, `subscriptionStatus_deliver` : after any deliveries the college has the
  plan and the status that were written last.
* `deliver_converges_iff` : which deliveries of a history end as its creation order does and
  never leave a paid plan with a canceled subscription.
-/
import JudgePlatform.Api.Store
import JudgePlatform.Library.Overwriting

namespace Stripe

open Api (ObjectId Date Number newDate updateDoc findDoc findDoc_updateDoc)
open Overwriting (lastWrite)

/-! ## Colleges and events -/

structure College where
  id : ObjectId
  planId : String
  stripeCustomerId : Option String
  stripeSubscriptionId : Option String
  subscriptionStatus : String
  currentPeriodEnd : Option Date

/-- What the schema lets `subscriptionStatus` be. -/
def subscriptionStatuses : List String := ["none", "trialing", "active", "past_due", "canceled"]

/-- A verified event, with what the handler reads of its object. -/
inductive StripeEvent where
  | checkoutCompleted (collegeId planId subscription : Option String)
  | subscriptionUpdated (customer status : String) (currentPeriodEnd : Option Number)
  | subscriptionDeleted (customer : String)
  | other (type : String)

/-- `x || undefined`, which an update leaves out. -/
def orUndefined (x : Option String) : Option String := x.filter (· ≠ "")

/-- `if (x) … new Date(x * 1000)` -/
def periodEnd (x : Option Number) : Option Date :=
  (x.filter fun x => !(x.eq .zero || x matches .nan)).map fun x => newDate (x.mul (.ofInt 1000))

/-- An invalid date cannot be saved. -/
def validPeriodEnd (x : Option Number) : Bool := !(periodEnd x matches some .nan)

namespace College

def checkedOut (planId subscription : Option String) (c : College) : College :=
  { c with
    stripeSubscriptionId := (orUndefined subscription).or c.stripeSubscriptionId
    planId := (orUndefined planId).getD c.planId
    subscriptionStatus := "active" }

def synced (status : String) (currentPeriodEnd : Option Number) (c : College) : College :=
  { c with
    subscriptionStatus := status
    currentPeriodEnd := (periodEnd currentPeriodEnd).or c.currentPeriodEnd }

def canceled (c : College) : College :=
  { c with planId := "free", subscriptionStatus := "canceled", stripeSubscriptionId := none }

/-- Whether `save` lets the changes in: a new status has to be one of the schema, and a new
date a valid one. -/
def accepts (status : String) (currentPeriodEnd : Option Number) (c : College) : Bool :=
  (status = c.subscriptionStatus || status ∈ subscriptionStatuses) &&
    validPeriodEnd currentPeriodEnd

end College

/-! ## The handler -/

section Handler

-- Mongoose's cast of a string to an identifier
variable (objectId : String → Option ObjectId)

def findByCustomer (s : List College) (customer : String) : Option College :=
  s.find? fun c => c.stripeCustomerId = some customer

/-- `handleStripeEvent`: the colleges afterwards, or `none` where it throws, in which case
nothing was stored. -/
def handleStripeEvent (s : List College) : StripeEvent → Option (List College)
  | .checkoutCompleted collegeId planId subscription =>
    match orUndefined collegeId with
    | none => some s
    | some collegeId => (objectId collegeId).map fun id =>
      updateDoc College.id s id (College.checkedOut planId subscription)
  | .subscriptionUpdated customer status currentPeriodEnd =>
    match findByCustomer s customer with
    | none => some s
    | some college =>
      if college.accepts status currentPeriodEnd then
        some (updateDoc College.id s college.id (College.synced status currentPeriodEnd))
      else none
  | .subscriptionDeleted customer =>
    match findByCustomer s customer with
    | none => some s
    | some college => some (updateDoc College.id s college.id College.canceled)
  | .other _ => some s

/-- Deliver events in order. -/
def deliver (s : List College) (events : List StripeEvent) : List College :=
  events.foldl (fun s e => (handleStripeEvent objectId s e).getD s) s

/-- The events of the subscription of a college. -/
def OfSubscription (id : ObjectId) (customer : String) : StripeEvent → Prop
  | .checkoutCompleted collegeId _ _ => (orUndefined collegeId).bind objectId = some id
  | .subscriptionUpdated c _ _ => c = customer
  | .subscriptionDeleted c => c = customer
  | .other _ => False

end Handler

/-- What an event of its subscription does to a college. -/
def College.after (c : College) : StripeEvent → College
  | .checkoutCompleted _ planId subscription => c.checkedOut planId subscription
  | .subscriptionUpdated _ status currentPeriodEnd =>
    if c.accepts status currentPeriodEnd then c.synced status currentPeriodEnd else c
  | .subscriptionDeleted _ => c.canceled
  | .other _ => c

/-- The plan that an event writes. -/
def StripeEvent.plan : StripeEvent → Option String
  | .checkoutCompleted _ planId _ => orUndefined planId
  | .subscriptionDeleted _ => some "free"
  | _ => none

/-- The status that an event writes. -/
def StripeEvent.status : StripeEvent → Option String
  | .checkoutCompleted _ _ _ => some "active"
  | .subscriptionUpdated _ status currentPeriodEnd =>
    if status ∈ subscriptionStatuses ∧ validPeriodEnd currentPeriodEnd then some status else none
  | .subscriptionDeleted _ => some "canceled"
  | .other _ => none

theorem planId_after (c : College) (e : StripeEvent) : (c.after e).planId = e.plan.getD c.planId := by
  cases e with
  | subscriptionUpdated customer status currentPeriodEnd =>
    simp only [College.after]
    split_ifs <;> rfl
  | _ => rfl

theorem subscriptionStatus_after (c : College) (e : StripeEvent) :
    (c.after e).subscriptionStatus = e.status.getD c.subscriptionStatus := by
  cases e with
  | subscriptionUpdated customer status currentPeriodEnd =>
    have haccepts : c.accepts status currentPeriodEnd = true ↔
        (status = c.subscriptionStatus ∨ status ∈ subscriptionStatuses) ∧
          validPeriodEnd currentPeriodEnd = true := by
      simp [College.accepts]
    simp only [College.after, StripeEvent.status]
    by_cases hwrites : status ∈ subscriptionStatuses ∧ validPeriodEnd currentPeriodEnd = true
    · rw [if_pos (haccepts.mpr ⟨.inr hwrites.1, hwrites.2⟩), if_pos hwrites]
      rfl
    · -- a status that the schema refuses is kept where the college has it already
      rw [if_neg hwrites]
      split_ifs with h
      · obtain ⟨hsame | hmem, hdate⟩ := haccepts.mp h
        · exact hsame
        · exact absurd ⟨hmem, hdate⟩ hwrites
      · rfl
  | _ => rfl

/-! ## Deliveries -/

section Deliver

variable {objectId : String → Option ObjectId} {s : List College} {id : ObjectId}
  {customer : String} {c : College} {events : List StripeEvent}

/-- The subscription of a college: the customer of its events is the college's own. -/
structure Subscribed (s : List College) (id : ObjectId) (customer : String) (c : College) :
    Prop where
  found : findDoc College.id s id = some c
  customer : findByCustomer s customer = some c

/-- An update of one document, as a lookup by what it leaves alone sees it. -/
theorem find?_updateDoc {p : College → Bool} {f : College → College} (hf : ∀ d, p (f d) = p d)
    (s : List College) (id : ObjectId) :
    (updateDoc College.id s id f).find? p =
      (s.find? p).map fun d => if d.id = id then f d else d := by
  induction s with
  | nil => rfl
  | cons d s ih =>
    have hd : p (if d.id = id then f d else d) = p d := by
      split
      · exact hf d
      · rfl
    unfold updateDoc at ih ⊢
    rw [List.map_cons, List.find?_cons, List.find?_cons, hd, ih]
    cases p d with
    | true => rfl
    | false => rfl

theorem Subscribed.update {f : College → College} (h : Subscribed s id customer c)
    (hid : ∀ d, (f d).id = d.id) (hcustomer : ∀ d, (f d).stripeCustomerId = d.stripeCustomerId) :
    Subscribed (updateDoc College.id s id f) id customer (f c) where
  found := by
    rw [findDoc_updateDoc College.id hid, if_pos rfl, h.found]
    rfl
  customer := by
    have hc : c.id = id := Api.findDoc_key College.id h.found
    unfold findByCustomer
    rw [find?_updateDoc (fun d => by rw [hcustomer]) s id]
    exact (congrArg (Option.map _) h.customer).trans (by rw [Option.map_some, if_pos hc])

/-- **What the handler does with an event of a college's subscription.** -/
theorem Subscribed.handle (h : Subscribed s id customer c) {e : StripeEvent}
    (he : OfSubscription objectId id customer e) :
    Subscribed ((handleStripeEvent objectId s e).getD s) id customer (c.after e) := by
  have hc : c.id = id := Api.findDoc_key College.id h.found
  cases e with
  | checkoutCompleted collegeId planId subscription =>
    obtain ⟨text, htext, hid⟩ := Option.bind_eq_some_iff.mp he
    simp only [handleStripeEvent, htext, hid]
    exact h.update (fun _ => rfl) fun _ => rfl
  | subscriptionUpdated x status currentPeriodEnd =>
    obtain rfl : x = customer := he
    simp only [handleStripeEvent, h.customer, College.after]
    cases c.accepts status currentPeriodEnd with
    | true =>
      rw [hc]
      exact h.update (fun _ => rfl) fun _ => rfl
    | false => exact h
  | subscriptionDeleted x =>
    obtain rfl : x = customer := he
    simp only [handleStripeEvent, h.customer, hc]
    exact h.update (fun _ => rfl) fun _ => rfl
  | other type => exact h

theorem Subscribed.deliver (h : Subscribed s id customer c)
    (hevents : ∀ e ∈ events, OfSubscription objectId id customer e) :
    Subscribed (deliver objectId s events) id customer (events.foldl College.after c) := by
  induction events generalizing s c with
  | nil => exact h
  | cons e events ih =>
    obtain ⟨he, hevents⟩ := List.forall_mem_cons.mp hevents
    exact ih (h.handle he) hevents

/-- The plan and the status of a college. -/
def billing (s : List College) (id : ObjectId) : Option (String × String) :=
  (findDoc College.id s id).map fun c => (c.planId, c.subscriptionStatus)

/-- **After any deliveries** a college has the plan and the status written last. -/
theorem billing_deliver (h : Subscribed s id customer c)
    (hevents : ∀ e ∈ events, OfSubscription objectId id customer e) :
    billing (Stripe.deliver objectId s events) id =
      some ((lastWrite StripeEvent.plan events).getD c.planId,
        (lastWrite StripeEvent.status events).getD c.subscriptionStatus) := by
  unfold billing
  rw [(h.deliver hevents).found, Option.map_some,
    Overwriting.foldl_eq_lastWrite StripeEvent.plan planId_after,
    Overwriting.foldl_eq_lastWrite StripeEvent.status subscriptionStatus_after]

end Deliver

/-! ## Convergence -/

/-- A paid plan whose subscription is canceled. -/
def PaidCanceled (s : List College) (id : ObjectId) : Prop :=
  ∃ plan, billing s id = some (plan, "canceled") ∧ plan ≠ "free"

/-- The deliveries end as the history does in its order, and never leave a paid plan with a
canceled subscription. -/
structure Converges (objectId : String → Option ObjectId) (s : List College) (id : ObjectId)
    (history deliveries : List StripeEvent) : Prop where
  ends : billing (deliver objectId s deliveries) id = billing (deliver objectId s history) id
  never : ∀ events, events <+: deliveries → ¬PaidCanceled (deliver objectId s events) id

/-- An event that writes the status canceled and leaves the plan. -/
def StripeEvent.Cancels (e : StripeEvent) : Prop := e.status = some "canceled" ∧ e.plan = none

/-- The deliveries write the plan and the status last that the history does, and a
cancellation that leaves the plan finds the free one. -/
structure InOrder (planId : String) (history deliveries : List StripeEvent) : Prop where
  plan : lastWrite StripeEvent.plan deliveries = lastWrite StripeEvent.plan history
  status : lastWrite StripeEvent.status deliveries = lastWrite StripeEvent.status history
  unpaid : ∀ events e, events ++ [e] <+: deliveries → e.Cancels →
    (lastWrite StripeEvent.plan events).getD planId = "free"

/-- Only a cancellation that leaves the plan writes canceled beside a paid one. -/
theorem cancels_of_status {e : StripeEvent} (hstatus : e.status = some "canceled")
    (hplan : e.plan ≠ some "free") : e.Cancels := by
  refine ⟨hstatus, ?_⟩
  cases e with
  | checkoutCompleted collegeId planId subscription =>
    have hne : ("active" : String) ≠ "canceled" := by decide
    exact absurd (Option.some.inj hstatus) hne
  | subscriptionUpdated customer status currentPeriodEnd => rfl
  | subscriptionDeleted customer => exact absurd rfl hplan
  | other type => rfl

section Converge

variable {objectId : String → Option ObjectId} {s : List College} {id : ObjectId}
  {customer : String} {c : College} {history deliveries events : List StripeEvent}

theorem paidCanceled_deliver (h : Subscribed s id customer c)
    (hevents : ∀ e ∈ events, OfSubscription objectId id customer e) :
    PaidCanceled (deliver objectId s events) id ↔
      (lastWrite StripeEvent.status events).getD c.subscriptionStatus = "canceled" ∧
        (lastWrite StripeEvent.plan events).getD c.planId ≠ "free" := by
  unfold PaidCanceled
  rw [billing_deliver h hevents]
  constructor
  · rintro ⟨plan, hbilling, hplan⟩
    rw [Option.some.injEq, Prod.mk.injEq] at hbilling
    exact ⟨hbilling.2, hbilling.1 ▸ hplan⟩
  · rintro ⟨hstatus, hplan⟩
    exact ⟨_, by rw [hstatus], hplan⟩

/-- A paid plan is left with a canceled subscription just when such a cancellation meets it. -/
theorem never_paidCanceled_iff (h : Subscribed s id customer c) (hstart : ¬PaidCanceled s id)
    (hevents : ∀ e ∈ deliveries, OfSubscription objectId id customer e) :
    (∀ events, events <+: deliveries → ¬PaidCanceled (deliver objectId s events) id) ↔
      ∀ events e, events ++ [e] <+: deliveries → e.Cancels →
        (lastWrite StripeEvent.plan events).getD c.planId = "free" := by
  have hof : ∀ events, events <+: deliveries →
      ∀ e ∈ events, OfSubscription objectId id customer e :=
    fun events hpre e he => hevents e (hpre.subset he)
  constructor
  · rintro hnever events e hpre ⟨hstatus, hplan⟩
    by_contra hpaid
    refine hnever _ hpre ((paidCanceled_deliver h (hof _ hpre)).mpr ?_)
    rw [Overwriting.lastWrite_concat, Overwriting.lastWrite_concat, hstatus, hplan]
    exact ⟨rfl, hpaid⟩
  · intro hunpaid events
    -- along the deliveries: the last event wrote canceled, or it was so before
    induction events using List.reverseRecOn with
    | nil => exact fun _ => hstart
    | append_singleton events e ih =>
      intro hpre hbad
      have hpre' : events <+: deliveries := (List.prefix_append events [e]).trans hpre
      rw [paidCanceled_deliver h (hof _ hpre), Overwriting.lastWrite_concat,
        Overwriting.lastWrite_concat] at hbad
      obtain ⟨hcanceled, hpaid⟩ := hbad
      cases hstatus : e.status with
      | some status =>
        rw [hstatus] at hcanceled
        obtain rfl : status = "canceled" := hcanceled
        have hcancels : e.Cancels := by
          refine cancels_of_status hstatus fun hfree => ?_
          rw [hfree] at hpaid
          exact hpaid rfl
        rw [hcancels.2] at hpaid
        exact hpaid (hunpaid events e hpre hcancels)
      | none =>
        have hplan : e.plan = none := by
          cases e with
          | checkoutCompleted collegeId planId subscription => cases hstatus
          | subscriptionDeleted customer => cases hstatus
          | subscriptionUpdated customer status currentPeriodEnd => rfl
          | other type => rfl
        rw [hstatus] at hcanceled
        rw [hplan] at hpaid
        exact ih hpre' ((paidCanceled_deliver h (hof _ hpre')).mpr ⟨hcanceled, hpaid⟩)

/-- **Which deliveries converge**: those that write the same plan and the same status last, and
in which a cancellation that leaves the plan never meets a paid one. -/
theorem deliver_converges_iff (h : Subscribed s id customer c) (hstart : ¬PaidCanceled s id)
    (hhistory : ∀ e ∈ history, OfSubscription objectId id customer e)
    (hsame : ∀ e, e ∈ deliveries ↔ e ∈ history) :
    Converges objectId s id history deliveries ↔ InOrder c.planId history deliveries := by
  have hdeliveries : ∀ e ∈ deliveries, OfSubscription objectId id customer e :=
    fun e he => hhistory e ((hsame e).mp he)
  have hends : billing (deliver objectId s deliveries) id = billing (deliver objectId s history) id ↔
      lastWrite StripeEvent.plan deliveries = lastWrite StripeEvent.plan history ∧
        lastWrite StripeEvent.status deliveries = lastWrite StripeEvent.status history := by
    rw [billing_deliver h hdeliveries, billing_deliver h hhistory, Option.some.injEq,
      Prod.mk.injEq, Overwriting.getD_lastWrite_eq_iff _ hsame,
      Overwriting.getD_lastWrite_eq_iff _ hsame]
  have hnever := never_paidCanceled_iff h hstart hdeliveries
  constructor
  · rintro ⟨hend, hnone⟩
    exact ⟨(hends.mp hend).1, (hends.mp hend).2, hnever.mp hnone⟩
  · rintro ⟨hplan, hstatus, hunpaid⟩
    exact ⟨hends.mpr ⟨hplan, hstatus⟩, hnever.mpr hunpaid⟩

end Converge

/-! ### A college and its events -/

def college : College where
  id := "64b7f0c2a1d3e4f5a6b7c8d9"
  planId := "free"
  stripeCustomerId := some "cus_1"
  stripeSubscriptionId := none
  subscriptionStatus := "none"
  currentPeriodEnd := none

def checkout : StripeEvent :=
  .checkoutCompleted (some "64b7f0c2a1d3e4f5a6b7c8d9") (some "pro") (some "sub_1")

theorem college_subscribed : Subscribed [college] college.id "cus_1" college := by
  constructor
  · rfl
  · rfl

/-- An event delivered twice in a row does no harm. -/
theorem deliver_converges_twice :
    let pastDue := StripeEvent.subscriptionUpdated "cus_1" "past_due" none
    Converges some [college] college.id [checkout, pastDue] [checkout, checkout, pastDue] := by
  intro pastDue
  have hnone : ∀ e ∈ [checkout, checkout, pastDue], ¬e.Cancels := by
    intro e he hcancels
    simp only [List.mem_cons, List.not_mem_nil, or_false] at he
    rcases he with rfl | rfl | rfl
    · cases hcancels.2
    · cases hcancels.2
    · exact absurd hcancels.1 (by decide +kernel)
  refine (deliver_converges_iff college_subscribed ?_ ?_ ?_).mpr ⟨rfl, rfl, ?_⟩
  · rintro ⟨plan, hbilling, hplan⟩
    have hstart : billing [college] college.id = some ("free", "none") := rfl
    rw [hstart] at hbilling
    simp at hbilling
  · intro e he
    simp only [List.mem_cons, List.not_mem_nil, or_false] at he
    rcases he with rfl | rfl
    · rfl
    · rfl
  · intro e
    simp
  · intro events e hpre hcancels
    exact absurd hcancels (hnone e (hpre.subset (by simp)))

/-- A checkout that is delivered again after the deletion brings the paid plan back, and a
cancellation that arrives as an update leaves it. -/
theorem redelivered_not_converges :
    ¬Converges some [college] college.id [checkout, .subscriptionDeleted "cus_1"]
        [checkout, .subscriptionDeleted "cus_1", checkout] ∧
      ¬Converges some [college] college.id
        [checkout, .subscriptionUpdated "cus_1" "canceled" none]
        [checkout, .subscriptionUpdated "cus_1" "canceled" none] := by
  constructor
  · intro h
    exact absurd h.ends (by decide +kernel)
  · intro h
    exact h.never _ (List.prefix_refl _) ⟨"pro", by decide +kernel, by decide⟩

end Stripe
