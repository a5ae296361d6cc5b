/-
# A message broker

Queues, exchanges and deliveries as AMQP 0-9-1 has them.  The default exchange routes by the
name of a queue and a direct exchange to the queues bound with an equal key; a message without
a route is dropped.  A delivered message stays with its consumer until it is settled, or comes
back when its consumer is lost.  A message that is rejected or expires is published to the
dead-letter exchange of its queue, under its own key unless the queue sets one.

* `Topology.route` : the queues that an exchange delivers to.
* `Broker` : the messages on the queues, and those that are delivered and not settled.
* `publish`, `deliver`, `ack`, `requeue`, `reject`, `expire` : the operations, each with a lemma
  that says where messages are after it.
-/
import Mathlib

structure Broker.QueueArgs where
  deadLetterExchange : Option String := none
  deadLetterRoutingKey : Option String := none
  messageTtl : Option ℕ := none

structure Broker.Binding where
  exchange : String
  key : String
  queue : String

/-- The declared queues and bindings; the default exchange has the name `""`. -/
structure Broker.Topology where
  queues : List (String × Broker.QueueArgs)
  bindings : List Broker.Binding

structure Broker.Message (Body : Type) where
  key : String
  body : Body

/-- A message that a consumer was given. -/
structure Broker.Delivery (Body : Type) where
  tag : ℕ
  queue : String
  message : Broker.Message Body

/-- The messages on the queues, each with its queue and in order, and the deliveries that are not
settled. -/
structure Broker (Body : Type) where
  ready : List (String × Broker.Message Body) := []
  unacked : List (Broker.Delivery Body) := []
  nextTag : ℕ := 0

namespace Broker

variable {Body : Type}

/-! ## Routing -/

def Topology.route (t : Topology) (exchange key : String) : List String :=
  if exchange = "" then (t.queues.map Prod.fst).filter (· = key)
  else (t.bindings.filter fun b => b.exchange = exchange ∧ b.key = key).map Binding.queue

def Topology.args (t : Topology) (queue : String) : QueueArgs :=
  ((t.queues.find? (·.1 = queue)).map Prod.snd).getD {}

/-! ## Operations -/

section Operations

variable (t : Topology) (b : Broker Body)

def publish (exchange : String) (m : Message Body) : Broker Body :=
  { b with ready := b.ready ++ (t.route exchange m.key).map fun queue => (queue, m) }

/-- A message that leaves its queue without being acknowledged. -/
def deadLetter (queue : String) (m : Message Body) : Broker Body :=
  match (t.args queue).deadLetterExchange with
  | none => b
  | some exchange =>
    b.publish t exchange { m with key := (t.args queue).deadLetterRoutingKey.getD m.key }

/-- The first message of a queue is handed to a consumer. -/
def deliver (queue : String) : Option (Delivery Body × Broker Body) :=
  (b.ready.find? (·.1 = queue)).map fun e =>
    (⟨b.nextTag, queue, e.2⟩,
      { ready := b.ready.eraseP (·.1 = queue)
        unacked := b.unacked ++ [⟨b.nextTag, queue, e.2⟩]
        nextTag := b.nextTag + 1 })

/-- An unknown tag is ignored. -/
def ack (tag : ℕ) : Broker Body := { b with unacked := b.unacked.filter (·.tag ≠ tag) }

/-- Back to its queue, unsettled or because its consumer is lost. -/
def requeue (tag : ℕ) : Broker Body :=
  { b.ack tag with
    ready := (b.unacked.filter (·.tag = tag)).map (fun d => (d.queue, d.message)) ++ b.ready }

def reject (tag : ℕ) : Broker Body :=
  match b.unacked.find? (·.tag = tag) with
  | none => b
  | some d => (b.ack tag).deadLetter t d.queue d.message

/-- The first message of a queue has reached the time to live that the queue sets. -/
def expire (queue : String) : Option (Broker Body) :=
  if (t.args queue).messageTtl.isSome then
    (b.ready.find? (·.1 = queue)).map fun e =>
      { b with ready := b.ready.eraseP (·.1 = queue) }.deadLetter t queue e.2
  else none

end Operations

/-! ## Where messages are -/

section Places

variable {t : Topology} {b b' : Broker Body} {exchange queue : String} {m : Message Body}
  {e : String × Message Body} {d : Delivery Body} {tag : ℕ}

theorem mem_ready_publish :
    e ∈ (b.publish t exchange m).ready ↔
      e ∈ b.ready ∨ e.1 ∈ t.route exchange m.key ∧ e.2 = m := by
  unfold publish
  rw [List.mem_append, List.mem_map]
  refine or_congr_right ⟨?_, ?_⟩
  · rintro ⟨queue, hqueue, rfl⟩
    exact ⟨hqueue, rfl⟩
  · rintro ⟨hqueue, rfl⟩
    exact ⟨e.1, hqueue, rfl⟩

theorem unacked_deadLetter : (b.deadLetter t queue m).unacked = b.unacked := by
  unfold deadLetter
  cases (t.args queue).deadLetterExchange with
  | none => rfl
  | some exchange => rfl

theorem nextTag_deadLetter : (b.deadLetter t queue m).nextTag = b.nextTag := by
  unfold deadLetter
  cases (t.args queue).deadLetterExchange with
  | none => rfl
  | some exchange => rfl

/-- A dead-lettered message is where its new key is routed to, and nowhere else. -/
theorem mem_ready_deadLetter :
    e ∈ (b.deadLetter t queue m).ready ↔
      e ∈ b.ready ∨ ∃ exchange, (t.args queue).deadLetterExchange = some exchange ∧
        e.1 ∈ t.route exchange ((t.args queue).deadLetterRoutingKey.getD m.key) ∧
        e.2 = { m with key := (t.args queue).deadLetterRoutingKey.getD m.key } := by
  unfold deadLetter
  cases (t.args queue).deadLetterExchange with
  | none => simp
  | some exchange =>
    dsimp only
    rw [mem_ready_publish]
    simp

/-- The first entry of a kind is taken out of a list, and no other entry. -/
theorem mem_or_mem_eraseP {α : Type} {p : α → Bool} {l : List α} {x y : α}
    (hx : l.find? p = some x) (hy : y ∈ l) : y = x ∨ y ∈ l.eraseP p := by
  induction l with
  | nil => cases hx
  | cons a l ih =>
    rw [List.find?_cons] at hx
    rw [List.eraseP_cons]
    cases ha : p a with
    | true =>
      rw [ha] at hx
      obtain rfl := Option.some.inj hx
      exact List.mem_cons.mp hy
    | false =>
      rw [ha] at hx
      rw [cond_false]
      rcases List.mem_cons.mp hy with rfl | hy
      · exact .inr List.mem_cons_self
      · exact (ih hx hy).imp_right (List.mem_cons_of_mem a)

/-- What a delivery takes. -/
structure Delivered (b : Broker Body) (queue : String) (d : Delivery Body) (b' : Broker Body) :
    Prop where
  tagged : d.tag = b.nextTag
  source : d.queue = queue
  waited : (queue, d.message) ∈ b.ready
  left : ∀ e ∈ b.ready, e = (queue, d.message) ∨ e ∈ b'.ready
  ready : ∀ e ∈ b'.ready, e ∈ b.ready
  unacked : b'.unacked = b.unacked ++ [d]
  nextTag : b'.nextTag = b.nextTag + 1

theorem delivered_of_deliver (h : b.deliver queue = some (d, b')) : Delivered b queue d b' := by
  obtain ⟨e, hfind, heq⟩ := Option.map_eq_some_iff.mp h
  obtain ⟨rfl, rfl⟩ := Prod.mk.inj heq
  have hqueue : e.1 = queue := by simpa using List.find?_some hfind
  have he : e = (queue, e.2) := by rw [← hqueue]
  refine ⟨rfl, rfl, he ▸ List.mem_of_find?_eq_some hfind, ?_, ?_, rfl, rfl⟩
  · intro e' he'
    rw [← he]
    exact mem_or_mem_eraseP hfind he'
  · exact fun e' he' => List.mem_of_mem_eraseP he'

theorem mem_unacked_ack : d ∈ (b.ack tag).unacked ↔ d ∈ b.unacked ∧ d.tag ≠ tag := by
  unfold ack
  rw [List.mem_filter, decide_eq_true_eq]

theorem mem_ready_requeue :
    e ∈ (b.requeue tag).ready ↔
      e ∈ b.ready ∨ ∃ d ∈ b.unacked, d.tag = tag ∧ e = (d.queue, d.message) := by
  unfold requeue
  rw [List.mem_append, List.mem_map, or_comm]
  refine or_congr_right (exists_congr fun d => ?_)
  rw [List.mem_filter, decide_eq_true_eq, and_assoc]
  exact and_congr_right fun _ => and_congr_right fun _ => eq_comm

theorem mem_unacked_requeue : d ∈ (b.requeue tag).unacked ↔ d ∈ b.unacked ∧ d.tag ≠ tag :=
  mem_unacked_ack

/-- A delivery that comes back is on its queue. -/
theorem mem_ready_or_unacked_requeue (hd : d ∈ b.unacked) (tag : ℕ) :
    (d.queue, d.message) ∈ (b.requeue tag).ready ∨ d ∈ (b.requeue tag).unacked := by
  by_cases htag : d.tag = tag
  · exact .inl (mem_ready_requeue.mpr (.inr ⟨d, hd, htag, rfl⟩))
  · exact .inr (mem_unacked_requeue.mpr ⟨hd, htag⟩)

theorem mem_unacked_reject : d ∈ (b.reject t tag).unacked ↔ d ∈ b.unacked ∧ d.tag ≠ tag := by
  unfold reject
  cases hfind : b.unacked.find? (·.tag = tag) with
  | none =>
    have hnone := List.find?_eq_none.mp hfind
    exact ⟨fun hd => ⟨hd, fun htag => hnone d hd (decide_eq_true htag)⟩, And.left⟩
  | some d' =>
    dsimp only
    rw [unacked_deadLetter]
    exact mem_unacked_ack

theorem nextTag_reject : (b.reject t tag).nextTag = b.nextTag := by
  unfold reject
  cases b.unacked.find? (·.tag = tag) with
  | none => rfl
  | some d' => exact nextTag_deadLetter

/-- What is on the queues after a message was rejected. -/
theorem mem_ready_reject :
    (e ∈ b.ready → e ∈ (b.reject t tag).ready) ∧
      (e ∈ (b.reject t tag).ready → e ∈ b.ready ∨ ∃ d ∈ b.unacked, ∃ exchange,
        (t.args d.queue).deadLetterExchange = some exchange ∧
        e.1 ∈ t.route exchange ((t.args d.queue).deadLetterRoutingKey.getD d.message.key)) := by
  unfold reject
  cases hfind : b.unacked.find? (·.tag = tag) with
  | none => exact ⟨id, .inl⟩
  | some d =>
    dsimp only
    rw [mem_ready_deadLetter]
    refine ⟨.inl, Or.imp_right ?_⟩
    rintro ⟨exchange, hexchange, hroute, -⟩
    exact ⟨d, List.mem_of_find?_eq_some hfind, exchange, hexchange, hroute⟩

/-- What an expiry takes, and where it puts it. -/
structure Expired (t : Topology) (b : Broker Body) (queue : String) (m : Message Body)
    (b' : Broker Body) : Prop where
  timed : (t.args queue).messageTtl.isSome
  waited : (queue, m) ∈ b.ready
  unacked : b'.unacked = b.unacked
  nextTag : b'.nextTag = b.nextTag
  left : ∀ e ∈ b.ready, e = (queue, m) ∨ e ∈ b'.ready
  moved : ∀ e, (∃ exchange, (t.args queue).deadLetterExchange = some exchange ∧
    e.1 ∈ t.route exchange ((t.args queue).deadLetterRoutingKey.getD m.key) ∧
    e.2 = { m with key := (t.args queue).deadLetterRoutingKey.getD m.key }) → e ∈ b'.ready
  ready : ∀ e ∈ b'.ready, e ∈ b.ready ∨
    ∃ exchange, (t.args queue).deadLetterExchange = some exchange ∧
      e.1 ∈ t.route exchange ((t.args queue).deadLetterRoutingKey.getD m.key) ∧
      e.2 = { m with key := (t.args queue).deadLetterRoutingKey.getD m.key }

theorem expired_of_expire (h : b.expire t queue = some b') : ∃ m, Expired t b queue m b' := by
  unfold expire at h
  split_ifs at h with htimed
  obtain ⟨e, hfind, rfl⟩ := Option.map_eq_some_iff.mp h
  have hqueue : e.1 = queue := by simpa using List.find?_some hfind
  have he : e = (queue, e.2) := by rw [← hqueue]
  refine ⟨e.2, htimed, he ▸ List.mem_of_find?_eq_some hfind, unacked_deadLetter,
    nextTag_deadLetter, ?_, fun e' he' => mem_ready_deadLetter.mpr (.inr he'), ?_⟩
  · intro e' he'
    rw [← he]
    exact (mem_or_mem_eraseP hfind he').imp_right fun h => mem_ready_deadLetter.mpr (.inl h)
  · exact fun e' he' => (mem_ready_deadLetter.mp he').imp_left List.mem_of_mem_eraseP

end Places

end Broker
