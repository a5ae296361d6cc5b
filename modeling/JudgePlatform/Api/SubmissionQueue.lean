/-
# The submission queue

The queue between the API and the judge: messages are published, delivered to workers,
acknowledged, sent to the retry queue, rejected or lost, in any order and by any number of
workers.  A worker is a run of `processSubmission` whose requests to the broker are carried out
there and whose requests to the database are served by one store.

* `topology` : the queues, the dead letters and the retry queue, as the judge declares them.
* `Moves` : what a step does, as far as the queues are concerned.
* `no_message_lost` : where a published message is, after any run.
* `dead_letters_empty` : where a rejected message is not.
-/
import JudgePlatform.Api.DeliveryHistories
import JudgePlatform.Api.Publishing
import JudgePlatform.Library.Broker

namespace Consumer

open Judge Program
open Api (ServiceError Submission)
open Publishing (queueName dlxName dlqName)

/-! ## The queues -/

def retryQueueName : String := queueName ++ "_retry"

/-- The declarations of `main`. -/
def topology : Broker.Topology where
  queues := [
    (dlqName, {}),
    (queueName, { deadLetterExchange := some dlxName }),
    (retryQueueName,
      { deadLetterExchange := some ""
        deadLetterRoutingKey := some queueName
        messageTtl := some 5000 })]
  bindings := [⟨dlxName, "", dlqName⟩]

/-- A body under way; the ticket says which of the published messages it goes back to. -/
structure Letter where
  ticket : ℕ
  text : String

/-- A worker with a delivery, from its start to its end. -/
structure Worker where
  tag : ℕ
  letter : Letter
  history : History
  rest : Task Unit

/-- The queues, the database and every worker so far; the texts of the messages are numbered as
they were published. -/
structure State where
  broker : Broker Letter := {}
  db : Database
  workers : List Worker := []
  published : List String := []

inductive Action where
  /-- the API publishes a message -/
  | publish (text : String)
  /-- a worker takes a delivery -/
  | receive
  /-- the next request of a worker is served -/
  | work (i : ℕ) (env : Environment)
  /-- a delivery comes back because its connection or its worker is lost -/
  | lose (tag : ℕ)
  /-- a message has waited for the time to live of its queue -/
  | expire (queue : String)

/-- What a request does to the queues. -/
def carryOut (env : Environment) (w : Worker) (b : Broker Letter) : Request → Broker Letter
  | .publishRetry body =>
    if env.published then b.publish topology "" ⟨retryQueueName, { w.letter with text := body }⟩
    else b
  | .ack => b.ack w.tag
  | .nack true => b.requeue w.tag
  | .nack false => b.reject topology w.tag
  | _ => b

def step (cfg : Config) (s : State) : Action → Option State
  | .publish text =>
    some { s with
      broker := s.broker.publish topology "" ⟨queueName, ⟨s.published.length, text⟩⟩
      published := s.published ++ [text] }
  | .receive =>
    (s.broker.deliver queueName).map fun e =>
      { s with
        broker := e.2
        workers := s.workers ++
          [⟨e.1.tag, e.1.message.body, {}, processSubmission cfg e.1.message.body.text⟩] }
  | .work i env =>
    match s.workers[i]? with
    | some ⟨tag, letter, h, .ask r next⟩ =>
      let served := serve env { db := s.db } r
      some { s with
        broker := carryOut env ⟨tag, letter, h, .ask r next⟩ s.broker r
        db := served.2.db
        workers := s.workers.set i ⟨tag, letter, note h r served.1, next served.1⟩ }
    | _ => none
  | .lose tag => some { s with broker := s.broker.requeue tag }
  | .expire queue => (s.broker.expire topology queue).map fun b => { s with broker := b }

/-- The submissions are in the database from the start, and only the judge writes to them. -/
def submissionQueue (cfg : Config) : TransitionSystem State Action where
  init := fun s => ∃ store, s = { db := { store := store } }
  step := step cfg

/-! ## Steps -/

/-- What serving a request does to the queues, with what the delivery has then told the
broker. -/
inductive Effect (cfg : Config) (w : Worker) (b : Broker Letter) :
    List Event → Broker Letter → Prop
  | silent : Effect cfg w b w.history.record b
  | copied {copy : String} (hopen : w.history.record = [])
      (hnamed : namedSubmission cfg copy = namedSubmission cfg w.letter.text) :
      Effect cfg w b [.sent copy]
        (b.publish topology "" ⟨retryQueueName, { w.letter with text := copy }⟩)
  | handedOn {copy : String} (hsent : w.history.record = [.sent copy]) :
      Effect cfg w b [.sent copy, .settled .ack] (b.ack w.tag)
  | answered (hopen : w.history.record = []) : Effect cfg w b [.settled .ack] (b.ack w.tag)
  | requeued (hopen : w.history.record = []) :
      Effect cfg w b [.settled (.nack true)] (b.requeue w.tag)
  | rejected (hopen : w.history.record = []) :
      Effect cfg w b [.settled (.nack false)] (b.reject topology w.tag)

theorem effect {cfg : Config} {w : Worker} {r : Request}
    (hasks : Asks cfg (namedSubmission cfg w.letter.text) w.history r) (env : Environment)
    (b : Broker Letter) (world : World) :
    Effect cfg w b (note w.history r (serve env world r).1).record (carryOut env w b r) := by
  cases r with
  | publishRetry copy =>
    obtain ⟨hopen, hnamed⟩ := hasks
    unfold serve carryOut
    dsimp only
    cases env.published with
    | false => exact .silent
    | true =>
      have hrecord : (w.history.tell (.sent copy)).record = [.sent copy] := by
        unfold History.tell
        rw [hopen]
        rfl
      rw [if_pos rfl]
      exact hrecord ▸ .copied hopen hnamed
  | ack =>
    have hrecord : (w.history.tell (.settled .ack)).record = w.history.record ++ [.settled .ack] :=
      rfl
    rcases hasks with ⟨copy, hsent⟩ | ⟨hopen, -⟩
    · rw [hsent] at hrecord
      exact hrecord ▸ .handedOn hsent
    · rw [hopen] at hrecord
      exact hrecord ▸ .answered hopen
  | nack requeue =>
    have hopen : w.history.record = [] := hasks
    have hrecord : (w.history.tell (.settled (.nack requeue))).record =
        [.settled (.nack requeue)] := by
      unfold History.tell
      rw [hopen]
      rfl
    cases requeue with
    | false => exact hrecord ▸ .rejected hopen
    | true => exact hrecord ▸ .requeued hopen
  | base r =>
    have hrecord : ∀ x, (note w.history (.base r) x).record = w.history.record := by
      intro x
      cases r with
      | _ => rfl
    rw [hrecord]
    exact .silent
  | _ => exact .silent

/-- The steps, as far as the queues are concerned. -/
inductive Moves (cfg : Config) (s : State) : State → Prop
  | publish (text : String) : Moves cfg s { s with
      broker := s.broker.publish topology "" ⟨queueName, ⟨s.published.length, text⟩⟩
      published := s.published ++ [text] }
  | receive {d : Broker.Delivery Letter} {b : Broker Letter} {rest : Task Unit}
      (hdelivered : s.broker.Delivered queueName d b) : Moves cfg s { s with
      broker := b
      workers := s.workers ++ [⟨d.tag, d.message.body, {}, rest⟩] }
  | work {i : ℕ} {w : Worker} {h : History} {rest : Task Unit} {b : Broker Letter} {db : Database}
      (hi : s.workers[i]? = some w) (heffect : Effect cfg w s.broker h.record b) :
      Moves cfg s { s with
      broker := b
      db := db
      workers := s.workers.set i ⟨w.tag, w.letter, h, rest⟩ }
  | lose (tag : ℕ) : Moves cfg s { s with broker := s.broker.requeue tag }
  | expire {queue : String} {b : Broker Letter}
      (hexpired : s.broker.expire topology queue = some b) : Moves cfg s { s with broker := b }

theorem moves_of_step {cfg : Config} {s s' : State} {a : Action}
    (hasks : ∀ w ∈ s.workers,
      Settles cfg (namedSubmission cfg w.letter.text) w.history w.rest)
    (h : step cfg s a = some s') : Moves cfg s s' := by
  cases a with
  | publish text => exact Option.some.inj h ▸ .publish text
  | receive =>
    obtain ⟨⟨d, b⟩, hdeliver, rfl⟩ := Option.map_eq_some_iff.mp h
    exact .receive (Broker.delivered_of_deliver hdeliver)
  | work i env =>
    unfold step at h
    dsimp only at h
    split at h
    · rename_i tag letter history r next hi
      obtain rfl := Option.some.inj h
      have hr := (hasks _ (List.mem_of_getElem? hi)).1
      exact .work hi (effect hr env s.broker { db := s.db })
    · cases h
  | lose tag => exact Option.some.inj h ▸ .lose tag
  | expire queue =>
    obtain ⟨b, hexpired, rfl⟩ := Option.map_eq_some_iff.mp h
    exact .expire hexpired

/-! ## Deliveries and their workers -/

/-- A delivery that is not settled is in the hands of one worker. -/
structure Tagged (s : State) : Prop where
  workers : ∀ w ∈ s.workers, w.tag < s.broker.nextTag
  unacked : ∀ d ∈ s.broker.unacked, d.tag < s.broker.nextTag
  letters : ∀ w ∈ s.workers, ∀ d ∈ s.broker.unacked, d.tag = w.tag → d.message.body = w.letter
  held : ∀ d ∈ s.broker.unacked, ∃ w ∈ s.workers, w.tag = d.tag ∧ ¬w.history.Closed

section Steps

variable {cfg : Config} {s s' : State} {w : Worker} {record : List Event} {b b' : Broker Letter}

theorem Effect.nextTag (h : Effect cfg w b record b') : b'.nextTag = b.nextTag := by
  cases h with
  | rejected => exact Broker.nextTag_reject
  | _ => rfl

theorem Effect.unacked (h : Effect cfg w b record b') {d : Broker.Delivery Letter}
    (hd : d ∈ b'.unacked) : d ∈ b.unacked := by
  cases h with
  | silent => exact hd
  | copied => exact hd
  | handedOn => exact (Broker.mem_unacked_ack.mp hd).1
  | answered => exact (Broker.mem_unacked_ack.mp hd).1
  | requeued => exact (Broker.mem_unacked_requeue.mp hd).1
  | rejected => exact (Broker.mem_unacked_reject.mp hd).1

/-- Only its own delivery is settled by a worker, and then it is. -/
theorem Effect.held (h : Effect cfg w b record b') {d : Broker.Delivery Letter}
    (hd : d ∈ b'.unacked) (htag : d.tag = w.tag) (hopen : ¬w.history.Closed) :
    ∀ x, Event.settled x ∉ record := by
  cases h with
  | silent => exact fun x hx => hopen ⟨x, hx⟩
  | copied =>
    intro x hx
    cases List.mem_singleton.mp hx
  | handedOn => exact absurd htag (Broker.mem_unacked_ack.mp hd).2
  | answered => exact absurd htag (Broker.mem_unacked_ack.mp hd).2
  | requeued => exact absurd htag (Broker.mem_unacked_requeue.mp hd).2
  | rejected => exact absurd htag (Broker.mem_unacked_reject.mp hd).2

theorem Tagged.moves (h : Tagged s) (hmoves : Moves cfg s s') : Tagged s' := by
  cases hmoves with
  | publish text => exact ⟨h.workers, h.unacked, h.letters, h.held⟩
  | @receive d b rest hdelivered =>
    refine ⟨?_, ?_, ?_, ?_⟩
    · intro w hw
      show w.tag < b.nextTag
      rw [hdelivered.nextTag]
      rcases List.mem_append.mp hw with hw | hw
      · exact Nat.lt_succ_of_lt (h.workers w hw)
      · rw [List.mem_singleton.mp hw]
        exact hdelivered.tagged ▸ Nat.lt_succ_self _
    · intro d' hd'
      show d'.tag < b.nextTag
      rw [hdelivered.nextTag]
      change d' ∈ b.unacked at hd'
      rw [hdelivered.unacked] at hd'
      rcases List.mem_append.mp hd' with hd' | hd'
      · exact Nat.lt_succ_of_lt (h.unacked d' hd')
      · rw [List.mem_singleton.mp hd']
        exact hdelivered.tagged ▸ Nat.lt_succ_self _
    · intro w hw d' hd' htag
      change d' ∈ b.unacked at hd'
      rw [hdelivered.unacked] at hd'
      rcases List.mem_append.mp hw with hw | hw
      · rcases List.mem_append.mp hd' with hd' | hd'
        · exact h.letters w hw d' hd' htag
        · rw [List.mem_singleton.mp hd', hdelivered.tagged] at htag
          exact absurd htag (h.workers w hw).ne'
      · rw [List.mem_singleton.mp hw] at htag ⊢
        rcases List.mem_append.mp hd' with hd' | hd'
        · exact absurd (htag.trans hdelivered.tagged) (h.unacked d' hd').ne
        · rw [List.mem_singleton.mp hd']
    · intro d' hd'
      change d' ∈ b.unacked at hd'
      rw [hdelivered.unacked] at hd'
      rcases List.mem_append.mp hd' with hd' | hd'
      · obtain ⟨w, hw, hheld⟩ := h.held d' hd'
        exact ⟨w, List.mem_append_left _ hw, hheld⟩
      · rw [List.mem_singleton.mp hd']
        refine ⟨_, List.mem_append_right _ (List.mem_singleton_self _), rfl, ?_⟩
        rintro ⟨x, hx⟩
        exact List.not_mem_nil hx
  | @work i w history rest b db hi heffect =>
    have hw := List.mem_of_getElem? hi
    refine ⟨?_, ?_, ?_, ?_⟩
    · intro w' hw'
      show w'.tag < b.nextTag
      rw [heffect.nextTag]
      rcases List.mem_or_eq_of_mem_set hw' with hw' | rfl
      · exact h.workers w' hw'
      · exact h.workers w hw
    · intro d hd
      show d.tag < b.nextTag
      rw [heffect.nextTag]
      exact h.unacked d (heffect.unacked hd)
    · intro w' hw' d hd
      rcases List.mem_or_eq_of_mem_set hw' with hw' | rfl
      · exact h.letters w' hw' d (heffect.unacked hd)
      · exact h.letters w hw d (heffect.unacked hd)
    · intro d hd
      obtain ⟨w', hw', htag, hopen⟩ := h.held d (heffect.unacked hd)
      obtain ⟨j, hj⟩ := List.mem_iff_getElem?.mp hw'
      by_cases hij : i = j
      · subst hij
        obtain rfl := Option.some.inj (hi.symm.trans hj)
        refine ⟨_, List.mem_set (List.getElem?_eq_some_iff.mp hi).1 _, htag, ?_⟩
        rintro ⟨x, hx⟩
        exact heffect.held hd htag.symm hopen x hx
      · rw [← List.getElem?_set_ne hij] at hj
        exact ⟨w', List.mem_of_getElem? hj, htag, hopen⟩
  | lose tag =>
    refine ⟨h.workers, ?_, ?_, ?_⟩
    · exact fun d hd => h.unacked d (Broker.mem_unacked_requeue.mp hd).1
    · exact fun w hw d hd => h.letters w hw d (Broker.mem_unacked_requeue.mp hd).1
    · exact fun d hd => h.held d (Broker.mem_unacked_requeue.mp hd).1
  | @expire queue b hexpired =>
    obtain ⟨m, hexpired⟩ := Broker.expired_of_expire hexpired
    refine ⟨?_, ?_, ?_, ?_⟩
    · exact fun w hw => hexpired.nextTag.symm ▸ h.workers w hw
    · exact fun d hd => hexpired.nextTag.symm ▸ h.unacked d (hexpired.unacked ▸ hd)
    · exact fun w hw d hd => h.letters w hw d (hexpired.unacked ▸ hd)
    · exact fun d hd => h.held d (hexpired.unacked ▸ hd)

/-! ## Where messages can be -/

theorem route_queueName : topology.route "" queueName = [queueName] := by decide

theorem route_retryQueueName : topology.route "" retryQueueName = [retryQueueName] := by decide

/-- The queue of the dead letters is bound with another key than that of the messages. -/
theorem route_dlxName : topology.route dlxName queueName = [] := by decide

theorem queueName_ne_retryQueueName : queueName ≠ retryQueueName := by decide

/-- Only the retry queue has a time to live. -/
theorem eq_retryQueueName {queue : String} (h : (topology.args queue).messageTtl.isSome) :
    queue = retryQueueName := by
  by_contra hne
  unfold Broker.Topology.args topology at h
  dsimp only at h
  rw [List.find?_cons, List.find?_cons, List.find?_cons,
    decide_eq_false (p := retryQueueName = queue) (Ne.symm hne)] at h
  by_cases hdlq : dlqName = queue
  · rw [decide_eq_true hdlq] at h
    cases h
  · rw [decide_eq_false hdlq] at h
    by_cases hqueue : queueName = queue
    · rw [decide_eq_true hqueue] at h
      cases h
    · rw [decide_eq_false hqueue] at h
      cases h

/-- A message is on one of two queues, and a delivery came from the first of them. -/
structure Routed (b : Broker Letter) : Prop where
  ready : ∀ e ∈ b.ready, e.1 = queueName ∧ e.2.key = queueName ∨ e.1 = retryQueueName
  unacked : ∀ d ∈ b.unacked, d.queue = queueName ∧ d.message.key = queueName

theorem Routed.requeue (h : Routed b) (tag : ℕ) : Routed (b.requeue tag) := by
  refine ⟨fun e he => ?_, fun d hd => h.unacked d (Broker.mem_unacked_requeue.mp hd).1⟩
  rcases Broker.mem_ready_requeue.mp he with he | ⟨d, hd, -, rfl⟩
  · exact h.ready e he
  · exact .inl (h.unacked d hd)

/-- A rejected message goes nowhere. -/
theorem Routed.reject (h : Routed b) {tag : ℕ} {e : String × Broker.Message Letter}
    (he : e ∈ (b.reject topology tag).ready) : e ∈ b.ready := by
  rcases Broker.mem_ready_reject.2 he with he | ⟨d, hd, exchange, hexchange, hroute⟩
  · exact he
  · obtain ⟨hqueue, hkey⟩ := h.unacked d hd
    rw [hqueue] at hexchange hroute
    obtain rfl : dlxName = exchange := Option.some.inj hexchange
    change _ ∈ topology.route dlxName d.message.key at hroute
    rw [hkey, route_dlxName] at hroute
    exact absurd hroute List.not_mem_nil

theorem Effect.routed (h : Effect cfg w b record b') (hb : Routed b) : Routed b' := by
  cases h with
  | silent => exact hb
  | copied =>
    refine ⟨fun e he => ?_, hb.unacked⟩
    rcases Broker.mem_ready_publish.mp he with he | ⟨he, -⟩
    · exact hb.ready e he
    · rw [route_retryQueueName] at he
      exact .inr (List.mem_singleton.mp he)
  | handedOn => exact ⟨hb.ready, fun d hd => hb.unacked d (Broker.mem_unacked_ack.mp hd).1⟩
  | answered => exact ⟨hb.ready, fun d hd => hb.unacked d (Broker.mem_unacked_ack.mp hd).1⟩
  | requeued => exact hb.requeue w.tag
  | rejected =>
    refine ⟨fun e he => ?_, fun d hd => hb.unacked d (Broker.mem_unacked_reject.mp hd).1⟩
    exact hb.ready e (hb.reject he)

theorem Routed.moves (h : Routed s.broker) (hmoves : Moves cfg s s') : Routed s'.broker := by
  cases hmoves with
  | publish text =>
    refine ⟨fun e he => ?_, h.unacked⟩
    rcases Broker.mem_ready_publish.mp he with he | ⟨he, hm⟩
    · exact h.ready e he
    · rw [route_queueName] at he
      exact .inl ⟨List.mem_singleton.mp he, hm ▸ rfl⟩
  | @receive d b rest hdelivered =>
    refine ⟨fun e he => h.ready e (hdelivered.ready e he), fun d' hd' => ?_⟩
    change d' ∈ b.unacked at hd'
    rw [hdelivered.unacked] at hd'
    rcases List.mem_append.mp hd' with hd' | hd'
    · exact h.unacked d' hd'
    · rw [List.mem_singleton.mp hd']
      refine ⟨hdelivered.source, ?_⟩
      rcases h.ready _ hdelivered.waited with ⟨-, hkey⟩ | hretry
      · exact hkey
      · exact absurd hretry queueName_ne_retryQueueName
  | work hi heffect => exact heffect.routed h
  | lose tag => exact h.requeue tag
  | @expire queue b hexpired =>
    obtain ⟨m, hexpired⟩ := Broker.expired_of_expire hexpired
    refine ⟨fun e he => ?_, fun d hd => h.unacked d (hexpired.unacked ▸ hd)⟩
    obtain rfl := eq_retryQueueName hexpired.timed
    rcases hexpired.ready e he with he | ⟨exchange, hexchange, hroute, hm⟩
    · exact h.ready e he
    · obtain rfl : "" = exchange := Option.some.inj hexchange
      change e.1 ∈ topology.route "" queueName at hroute
      rw [route_queueName] at hroute
      exact .inl ⟨List.mem_singleton.mp hroute, hm ▸ rfl⟩

/-! ## Copies of a message -/

/-- The message that a letter goes back to names the same submission. -/
def Names (cfg : Config) (published : List String) (l : Letter) : Prop :=
  ∃ text, published[l.ticket]? = some text ∧
    namedSubmission cfg l.text = namedSubmission cfg text

theorem Names.append {published : List String} {l : Letter} (h : Names cfg published l)
    (text : String) : Names cfg (published ++ [text]) l := by
  obtain ⟨original, horiginal, hnamed⟩ := h
  refine ⟨original, ?_, hnamed⟩
  rw [List.getElem?_append_left (List.getElem?_eq_some_iff.mp horiginal).1]
  exact horiginal

structure Genuine (cfg : Config) (s : State) : Prop where
  ready : ∀ e ∈ s.broker.ready, Names cfg s.published e.2.body
  unacked : ∀ d ∈ s.broker.unacked, Names cfg s.published d.message.body
  workers : ∀ w ∈ s.workers, Names cfg s.published w.letter

/-- What a worker puts on a queue is its own letter, or a copy of it. -/
theorem Effect.ready (h : Effect cfg w b record b') (hb : Routed b)
    {e : String × Broker.Message Letter} (he : e ∈ b'.ready) :
    e ∈ b.ready ∨ (∃ d ∈ b.unacked, e.2.body = d.message.body) ∨
      e.2.body.ticket = w.letter.ticket ∧
        namedSubmission cfg e.2.body.text = namedSubmission cfg w.letter.text := by
  cases h with
  | silent => exact .inl he
  | copied hopen hnamed =>
    rcases Broker.mem_ready_publish.mp he with he | ⟨-, he⟩
    · exact .inl he
    · rw [he]
      exact .inr (.inr ⟨rfl, hnamed⟩)
  | handedOn => exact .inl he
  | answered => exact .inl he
  | requeued =>
    rcases Broker.mem_ready_requeue.mp he with he | ⟨d, hd, -, rfl⟩
    · exact .inl he
    · exact .inr (.inl ⟨d, hd, rfl⟩)
  | rejected => exact .inl (hb.reject he)

theorem Genuine.moves (h : Genuine cfg s) (hrouted : Routed s.broker) (hmoves : Moves cfg s s') :
    Genuine cfg s' := by
  cases hmoves with
  | publish text =>
    refine ⟨fun e he => ?_, fun d hd => (h.unacked d hd).append text,
      fun w hw => (h.workers w hw).append text⟩
    rcases Broker.mem_ready_publish.mp he with he | ⟨-, he⟩
    · exact (h.ready e he).append text
    · rw [he]
      exact ⟨text, List.getElem?_concat_length, rfl⟩
  | @receive d b rest hdelivered =>
    have hd := h.ready _ hdelivered.waited
    refine ⟨fun e he => h.ready e (hdelivered.ready e he), fun d' hd' => ?_, fun w hw => ?_⟩
    · change d' ∈ b.unacked at hd'
      rw [hdelivered.unacked] at hd'
      rcases List.mem_append.mp hd' with hd' | hd'
      · exact h.unacked d' hd'
      · rw [List.mem_singleton.mp hd']
        exact hd
    · rcases List.mem_append.mp hw with hw | hw
      · exact h.workers w hw
      · rw [List.mem_singleton.mp hw]
        exact hd
  | @work i w history rest b db hi heffect =>
    have hw := h.workers w (List.mem_of_getElem? hi)
    refine ⟨fun e he => ?_, fun d hd => h.unacked d (heffect.unacked hd), fun w' hw' => ?_⟩
    · rcases heffect.ready hrouted he with he | ⟨d, hd, hbody⟩ | ⟨hticket, hnamed⟩
      · exact h.ready e he
      · exact hbody ▸ h.unacked d hd
      · obtain ⟨text, htext, hsame⟩ := hw
        exact ⟨text, hticket ▸ htext, hnamed.trans hsame⟩
    · rcases List.mem_or_eq_of_mem_set hw' with hw' | rfl
      · exact h.workers w' hw'
      · exact hw
  | lose tag =>
    refine ⟨fun e he => ?_, fun d hd => h.unacked d (Broker.mem_unacked_requeue.mp hd).1,
      h.workers⟩
    rcases Broker.mem_ready_requeue.mp he with he | ⟨d, hd, -, rfl⟩
    · exact h.ready e he
    · exact h.unacked d hd
  | @expire queue b hexpired =>
    obtain ⟨m, hexpired⟩ := Broker.expired_of_expire hexpired
    refine ⟨fun e he => ?_, fun d hd => h.unacked d (hexpired.unacked ▸ hd), h.workers⟩
    rcases hexpired.ready e he with he | ⟨exchange, -, -, hm⟩
    · exact h.ready e he
    · rw [hm]
      exact h.ready _ hexpired.waited

/-! ## Messages that are not lost -/

/-- A delivery that ended for good. -/
def History.Final (h : History) : Prop :=
  h.record = [.settled .ack] ∨ h.record = [.settled (.nack false)]

/-- A message is on a queue, with a worker that has not sent a copy, or ended for good. -/
def Covered (s : State) (x : ℕ) : Prop :=
  (∃ e ∈ s.broker.ready, e.2.body.ticket = x) ∨
    (∃ d ∈ s.broker.unacked, d.message.body.ticket = x ∧
      ∀ w ∈ s.workers, w.tag = d.tag → ∀ copy, Event.sent copy ∉ w.history.record) ∨
    ∃ w ∈ s.workers, w.letter.ticket = x ∧ w.history.Final

theorem Effect.mem_ready (h : Effect cfg w b record b') {e : String × Broker.Message Letter}
    (he : e ∈ b.ready) : e ∈ b'.ready := by
  cases h with
  | silent => exact he
  | copied => exact Broker.mem_ready_publish.mpr (.inl he)
  | handedOn => exact he
  | answered => exact he
  | requeued => exact Broker.mem_ready_requeue.mpr (.inl he)
  | rejected => exact Broker.mem_ready_reject.1 he

theorem Effect.mem_unacked (h : Effect cfg w b record b') {d : Broker.Delivery Letter}
    (hd : d ∈ b.unacked) (htag : d.tag ≠ w.tag) : d ∈ b'.unacked := by
  cases h with
  | silent => exact hd
  | copied => exact hd
  | handedOn => exact Broker.mem_unacked_ack.mpr ⟨hd, htag⟩
  | answered => exact Broker.mem_unacked_ack.mpr ⟨hd, htag⟩
  | requeued => exact Broker.mem_unacked_requeue.mpr ⟨hd, htag⟩
  | rejected => exact Broker.mem_unacked_reject.mpr ⟨hd, htag⟩

/-- What has ended for good stays as it is. -/
theorem Effect.final (h : Effect cfg w b record b') (hfinal : w.history.Final) :
    record = w.history.record := by
  unfold History.Final at hfinal
  cases h with
  | silent => rfl
  | handedOn hsent =>
    rw [hsent] at hfinal
    rcases hfinal with h | h
    · cases h
    · cases h
  | copied hopen | answered hopen | requeued hopen | rejected hopen =>
    rw [hopen] at hfinal
    rcases hfinal with h | h
    · cases h
    · cases h

theorem Covered.work {i : ℕ} {x : ℕ} {h : History} {rest : Task Unit} {db : Database}
    (hx : Covered s x) (htagged : Tagged s) (hi : s.workers[i]? = some w)
    (heffect : Effect cfg w s.broker h.record b) :
    Covered { s with broker := b, db := db, workers := s.workers.set i ⟨w.tag, w.letter, h, rest⟩ }
      x := by
  have hw := List.mem_of_getElem? hi
  have hset : (⟨w.tag, w.letter, h, rest⟩ : Worker) ∈
      s.workers.set i ⟨w.tag, w.letter, h, rest⟩ :=
    List.mem_set (List.getElem?_eq_some_iff.mp hi).1 _
  rcases hx with ⟨e, he, hticket⟩ | ⟨d, hd, hticket, hunsent⟩ | ⟨w', hw', hticket, hfinal⟩
  · exact .inl ⟨e, heffect.mem_ready he, hticket⟩
  · by_cases htag : d.tag = w.tag
    · have hletter := htagged.letters w hw d hd htag
      rw [hletter] at hticket
      have hopen := hunsent w hw htag.symm
      generalize hrecord : h.record = record at heffect
      cases heffect with
      | silent =>
        refine .inr (.inl ⟨d, hd, hletter ▸ hticket, fun w' hw' htag' => ?_⟩)
        rcases List.mem_or_eq_of_mem_set hw' with hw' | rfl
        · exact hunsent w' hw' htag'
        · exact fun copy => hrecord ▸ hopen copy
      | @copied copy =>
        refine .inl ⟨(retryQueueName, ⟨retryQueueName, { w.letter with text := copy }⟩),
          Broker.mem_ready_publish.mpr (.inr ⟨?_, rfl⟩), hticket⟩
        rw [route_retryQueueName]
        exact List.mem_singleton_self _
      | @handedOn copy hsent => exact absurd (hsent ▸ List.mem_singleton_self _) (hopen copy)
      | answered => exact .inr (.inr ⟨_, hset, hticket, .inl hrecord⟩)
      | requeued =>
        refine .inl ⟨(d.queue, d.message), Broker.mem_ready_requeue.mpr (.inr ⟨d, hd, htag, rfl⟩),
          hletter ▸ hticket⟩
      | rejected => exact .inr (.inr ⟨_, hset, hticket, .inr hrecord⟩)
    · refine .inr (.inl ⟨d, heffect.mem_unacked hd htag, hticket, fun w' hw' htag' => ?_⟩)
      rcases List.mem_or_eq_of_mem_set hw' with hw' | rfl
      · exact hunsent w' hw' htag'
      · exact absurd htag'.symm htag
  · obtain ⟨j, hj⟩ := List.mem_iff_getElem?.mp hw'
    by_cases hij : i = j
    · subst hij
      obtain rfl := Option.some.inj (hi.symm.trans hj)
      refine .inr (.inr ⟨_, hset, hticket, ?_⟩)
      unfold History.Final
      rw [heffect.final hfinal]
      exact hfinal
    · rw [← List.getElem?_set_ne hij] at hj
      exact .inr (.inr ⟨w', List.mem_of_getElem? hj, hticket, hfinal⟩)

theorem Covered.moves {x : ℕ} (hx : Covered s x) (htagged : Tagged s) (hmoves : Moves cfg s s') :
    Covered s' x := by
  cases hmoves with
  | publish text =>
    exact hx.imp_left fun ⟨e, he, hticket⟩ =>
      ⟨e, Broker.mem_ready_publish.mpr (.inl he), hticket⟩
  | @receive d b rest hdelivered =>
    have hmem : ∀ d', d' ∈ s.broker.unacked ∨ d' = d → d' ∈ b.unacked := by
      intro d' hd'
      rw [hdelivered.unacked]
      exact List.mem_append.mpr (hd'.imp_right List.mem_singleton.mpr)
    rcases hx with ⟨e, he, hticket⟩ | ⟨d', hd', hticket, hunsent⟩ | ⟨w, hw, hfinal⟩
    · rcases hdelivered.left e he with rfl | he
      · refine .inr (.inl ⟨d, hmem d (.inr rfl), hticket, fun w hw htag => ?_⟩)
        rcases List.mem_append.mp hw with hw | hw
        · exact absurd (htag.trans hdelivered.tagged) (htagged.workers w hw).ne
        · rw [List.mem_singleton.mp hw]
          exact fun copy => List.not_mem_nil
      · exact .inl ⟨e, he, hticket⟩
    · refine .inr (.inl ⟨d', hmem d' (.inl hd'), hticket, fun w hw htag => ?_⟩)
      rcases List.mem_append.mp hw with hw | hw
      · exact hunsent w hw htag
      · rw [List.mem_singleton.mp hw]
        exact fun copy => List.not_mem_nil
    · exact .inr (.inr ⟨w, List.mem_append_left _ hw, hfinal⟩)
  | work hi heffect => exact hx.work htagged hi heffect
  | lose tag =>
    rcases hx with ⟨e, he, hticket⟩ | ⟨d, hd, hticket, hunsent⟩ | hfinal
    · exact .inl ⟨e, Broker.mem_ready_requeue.mpr (.inl he), hticket⟩
    · rcases Broker.mem_ready_or_unacked_requeue hd tag with hready | hunacked
      · exact .inl ⟨_, hready, hticket⟩
      · exact .inr (.inl ⟨d, hunacked, hticket, hunsent⟩)
    · exact .inr (.inr hfinal)
  | @expire queue b hexpired =>
    obtain ⟨m, hexpired⟩ := Broker.expired_of_expire hexpired
    rcases hx with ⟨e, he, hticket⟩ | ⟨d, hd, hticket, hunsent⟩ | hfinal
    · rcases hexpired.left e he with rfl | he
      · obtain rfl := eq_retryQueueName hexpired.timed
        refine .inl ⟨(queueName, { m with key := queueName }), hexpired.moved _ ⟨"", rfl, ?_, rfl⟩,
          hticket⟩
        show queueName ∈ topology.route "" queueName
        rw [route_queueName]
        exact List.mem_singleton_self _
      · exact .inl ⟨e, he, hticket⟩
    · exact .inr (.inl ⟨d, hexpired.unacked.symm ▸ hd, hticket, hunsent⟩)
    · exact .inr (.inr hfinal)

end Steps

/-! ## What workers have written -/

section Written

variable {cfg : Config} {id : String} {h : History} {r : Request} {env : Environment}
  {db : Database}

theorem answers_serve (env : Environment) (w : World) (r : Request) :
    Answers r (serve env w r).1 := by
  cases r with
  | acquire lang => exact ⟨_, rfl⟩
  | run strategy sm problem => exact ⟨_, rfl⟩
  | runInContainer problem => exact ⟨_, rfl⟩
  | _ => trivial

/-- An acknowledged delivery without a copy has its final status. -/
def History.Acked (h : History) (id : String) : Prop :=
  h.record = [.settled .ack] → Api.isObjectId id = true → id ∈ h.finals

theorem acked_note (hacked : h.Acked id) (hasks : Asks cfg id h r)
    (x : Except ServiceError (Reply r)) : (note h r x).Acked id := by
  cases r with
  | publishRetry copy =>
    cases x with
    | error e => exact hacked
    | ok u =>
      intro hrecord
      change h.record ++ [.sent copy] = _ at hrecord
      rw [hasks.1] at hrecord
      cases hrecord
  | ack =>
    rcases hasks with ⟨copy, hsent⟩ | ⟨-, hfinal⟩
    · intro hrecord
      change h.record ++ [.settled .ack] = _ at hrecord
      rw [hsent] at hrecord
      cases hrecord
    · exact fun _ => hfinal
  | nack requeue =>
    intro hrecord
    change h.record ++ [.settled (.nack requeue)] = _ at hrecord
    rw [show h.record = [] from hasks] at hrecord
    cases hrecord
  | base r =>
    cases r with
    | storeResult => exact fun hrecord hid => List.mem_append_left _ (hacked hrecord hid)
    | storeFailure => exact fun hrecord hid => List.mem_append_left _ (hacked hrecord hid)
    | _ => exact hacked
  | _ => exact hacked

/-- The update of another submission, or of the same. -/
theorem holds_updated {r : Api.Request} {id' : String} {f : Submission → Submission}
    (hserve : (Api.serve {} db.store r).2 = db.store.updateSubmission id' f)
    (hrefuse : (Api.serve { refused := true } db.store r).2 = db.store)
    (hid : ∀ d, (f d).id = d.id) (hterminal : ∀ d, Terminal (f d).status) (hold : Holds id db) :
    Holds id (serveBase env db r).2 := by
  intro hwrites d hd
  have hold' := hold (refusedWrites_serveBase hwrites)
  unfold serveBase at hd
  cases hrefused : env.refused r with
  | true =>
    rw [hrefused] at hd
    exact hold' d (hrefuse ▸ hd)
  | false =>
    rw [hrefused] at hd
    have hsubmission : (db.store.updateSubmission id' f).submission id = some d := hserve ▸ hd
    unfold Api.Store.submission Api.Store.updateSubmission at hsubmission
    rw [Api.findDoc_updateDoc Submission.id hid] at hsubmission
    split_ifs at hsubmission
    · obtain ⟨d', -, rfl⟩ := Option.map_eq_some_iff.mp hsubmission
      exact hterminal d'
    · exact hold' d hsubmission

/-- A final status stays final. -/
theorem holds_serveBase {r : Api.Request} (hr : WritesFinal r) (hold : Holds id db) :
    Holds id (serveBase env db r).2 := by
  have hpublishes : publishes r = true → Holds id (serveBase env db r).2 := by
    intro hr hwrites d hd
    unfold Api.Store.submission at hd
    rw [submissions_serveBase hr] at hd
    exact hold (refusedWrites_serveBase hwrites) d hd
  cases r with
  | storeResult id' status output testResult =>
    exact holds_updated (f := Submission.withResult _ _ _) rfl rfl (fun _ => rfl) (fun _ => hr)
      hold
  | storeFailure id' reason =>
    exact holds_updated (f := Submission.withFailure reason) rfl rfl (fun _ => rfl)
      (fun _ => .inr (.inr rfl)) hold
  | _ => exact hpublishes hr

theorem holds_serve (hasks : Asks cfg id h r) {id' : String} (hold : Holds id' db) :
    Holds id' (serve env { db := db } r).2.db := by
  cases r with
  | base r => exact holds_serveBase hasks hold
  | publishRetry copy =>
    unfold serve
    dsimp only
    split_ifs
    · exact hold
    · exact hold
  | _ => exact hold

/-- What a step has written is final as well. -/
theorem holds_note (hasks : Asks cfg id h r) (hold : ∀ id' ∈ h.finals, Holds id' db)
    {id' : String} (hid : id' ∈ (note h r (serve env { db := db } r).1).finals) :
    Holds id' (serve env { db := db } r).2.db := by
  have hkept : id' ∈ h.finals → Holds id' (serve env { db := db } r).2.db :=
    fun hid => holds_serve hasks (hold id' hid)
  cases r with
  | publishRetry copy =>
    refine hkept ?_
    cases hx : (serve env { db := db } (.publishRetry copy)).1 with
    | error e => exact (hx ▸ hid : id' ∈ (note h (.publishRetry copy) (.error e)).finals)
    | ok u => exact (hx ▸ hid : id' ∈ (note h (.publishRetry copy) (.ok u)).finals)
  | base r =>
    cases r with
    | storeResult id₀ status output testResult =>
      rcases List.mem_append.mp hid with hid | hid
      · exact hkept hid
      · obtain rfl := List.mem_singleton.mp hid
        exact holds_update (f := Submission.withResult _ _ _) rfl rfl (fun _ => rfl)
          fun _ => hasks
    | storeFailure id₀ reason =>
      rcases List.mem_append.mp hid with hid | hid
      · exact hkept hid
      · obtain rfl := List.mem_singleton.mp hid
        exact holds_update (f := Submission.withFailure reason) rfl rfl (fun _ => rfl)
          fun _ => .inr (.inr rfl)
    | _ => exact hkept hid
  | _ => exact hkept hid

/-- Each worker keeps to the logic of one delivery, and the statuses that it has written are
final. -/
structure Written (cfg : Config) (db : Database) (w : Worker) : Prop where
  asks : Settles cfg (namedSubmission cfg w.letter.text) w.history w.rest
  acked : w.history.Acked (namedSubmission cfg w.letter.text)
  finals : ∀ id ∈ w.history.finals, Holds id db

theorem written_step {s s' : State} {a : Action} (h : ∀ w ∈ s.workers, Written cfg s.db w)
    (hstep : step cfg s a = some s') : ∀ w ∈ s'.workers, Written cfg s'.db w := by
  cases a with
  | publish text => exact Option.some.inj hstep ▸ h
  | receive =>
    obtain ⟨⟨d, b⟩, -, rfl⟩ := Option.map_eq_some_iff.mp hstep
    intro w hw
    rcases List.mem_append.mp hw with hw | hw
    · exact h w hw
    · rw [List.mem_singleton.mp hw]
      refine ⟨settles_processSubmission cfg _, fun hrecord => ?_, fun id hid => ?_⟩
      · cases hrecord
      · exact absurd hid List.not_mem_nil
  | work i env =>
    unfold step at hstep
    dsimp only at hstep
    split at hstep
    · rename_i tag letter history r next hi
      obtain rfl := Option.some.inj hstep
      have hworker := h _ (List.mem_of_getElem? hi)
      obtain ⟨hr, hnext⟩ := hworker.asks
      intro w hw
      rcases List.mem_or_eq_of_mem_set hw with hw | rfl
      · have hw := h w hw
        exact ⟨hw.asks, hw.acked, fun id hid => holds_serve hr (hw.finals id hid)⟩
      · exact ⟨hnext _ (answers_serve env _ r), acked_note hworker.acked hr _,
          fun id hid => holds_note hr hworker.finals hid⟩
    · cases hstep
  | lose tag => exact Option.some.inj hstep ▸ h
  | expire queue =>
    obtain ⟨b, -, rfl⟩ := Option.map_eq_some_iff.mp hstep
    exact h

end Written

/-! ## Every run -/

/-- Where a published message is that names the submission `id`. -/
inductive Accounted (s : State) (x : ℕ) (id : String) : Prop
  /-- on the queue or on the retry queue -/
  | waiting {e : String × Broker.Message Letter} (he : e ∈ s.broker.ready)
      (hqueue : e.1 = queueName ∨ e.1 = retryQueueName) (hticket : e.2.body.ticket = x)
  /-- with a worker that goes on -/
  | held {w : Worker} {d : Broker.Delivery Letter} (hw : w ∈ s.workers)
      (hd : d ∈ s.broker.unacked) (htag : d.tag = w.tag) (hticket : w.letter.ticket = x)
      (hgoesOn : w.rest.pending.isSome)
  | rejected {w : Worker} (hw : w ∈ s.workers) (hticket : w.letter.ticket = x)
      (hrecord : w.history.record = [.settled (.nack false)])
  | answered {w : Worker} (hw : w ∈ s.workers) (hticket : w.letter.ticket = x)
      (hrecord : w.history.record = [.settled .ack])
      (hfinal : Api.isObjectId id = true → Holds id s.db)

/-- What is kept in every run. -/
structure Kept (cfg : Config) (s : State) : Prop where
  tagged : Tagged s
  routed : Routed s.broker
  genuine : Genuine cfg s
  written : ∀ w ∈ s.workers, Written cfg s.db w
  covered : ∀ x < s.published.length, Covered s x

theorem published_moves {cfg : Config} {s s' : State} (h : Moves cfg s s') :
    s'.published = s.published ∨
      ∃ e ∈ s'.broker.ready, e.2.body.ticket = s.published.length ∧
        s'.published.length = s.published.length + 1 := by
  cases h with
  | publish text =>
    refine .inr ⟨(queueName, ⟨queueName, ⟨s.published.length, text⟩⟩), ?_, rfl,
      List.length_append⟩
    refine Broker.mem_ready_publish.mpr (.inr ⟨?_, rfl⟩)
    rw [route_queueName]
    exact List.mem_singleton_self _
  | _ => exact .inl rfl

theorem kept {cfg : Config} {s : State} (hs : (submissionQueue cfg).Reachable s) : Kept cfg s := by
  refine hs.invariant (I := Kept cfg) ?_ ?_
  · rintro s ⟨store, rfl⟩
    refine ⟨⟨?_, ?_, ?_, ?_⟩, ⟨?_, ?_⟩, ⟨?_, ?_, ?_⟩, ?_, ?_⟩
    all_goals first
      | exact fun _ h => absurd h List.not_mem_nil
      | exact fun _ h => absurd h (Nat.not_lt_zero _)
  · intro s a s' h _ hstep
    have hmoves := moves_of_step (fun w hw => (h.written w hw).asks) hstep
    refine ⟨h.tagged.moves hmoves, h.routed.moves hmoves, h.genuine.moves h.routed hmoves,
      written_step h.written hstep, fun x hx => ?_⟩
    rcases published_moves hmoves with hsame | ⟨e, he, hticket, hlength⟩
    · rw [hsame] at hx
      exact (h.covered x hx).moves h.tagged hmoves
    · rw [hlength] at hx
      rcases Nat.lt_succ_iff_lt_or_eq.mp hx with hx | rfl
      · exact (h.covered x hx).moves h.tagged hmoves
      · exact .inl ⟨e, he, hticket⟩

/-- **No message is lost unless it is rejected**: after any run, a message that was published is
on the queue or on the retry queue, with a worker that goes on, rejected, or acknowledged, and
then the submission that it names has a final status if no write was refused. -/
theorem no_message_lost {cfg : Config} {s : State} (hs : (submissionQueue cfg).Reachable s)
    {x : ℕ} {text : String} (hx : s.published[x]? = some text) :
    Accounted s x (namedSubmission cfg text) := by
  have h := kept hs
  rcases h.covered x (List.getElem?_eq_some_iff.mp hx).1 with
    ⟨e, he, hticket⟩ | ⟨d, hd, hticket, -⟩ | ⟨w, hw, hticket, hack | hreject⟩
  · exact .waiting he ((h.routed.ready e he).imp_left And.left) hticket
  · obtain ⟨w, hw, htag, hopen⟩ := h.tagged.held d hd
    have hletter := h.tagged.letters w hw d hd htag.symm
    refine .held hw hd htag.symm (hletter ▸ hticket) ?_
    have hasks := (h.written w hw).asks
    cases hrest : w.rest with
    | done a =>
      rw [hrest] at hasks
      exact absurd hasks hopen
    | fail e =>
      rw [hrest] at hasks
      exact absurd hasks hopen
    | ask r next => rfl
  · refine .answered hw hticket hack fun hid => ?_
    obtain ⟨text', htext', hnamed⟩ := h.genuine.workers w hw
    rw [hticket, hx, Option.some.injEq] at htext'
    subst htext'
    rw [← hnamed] at hid ⊢
    have hwritten := h.written w hw
    exact hwritten.finals _ (hwritten.acked hack hid)
  · exact .rejected hw hticket hreject

/-- No message has been published. -/
def start : State := { db := { store := Publishing.oneProblem } }

/-- A run in which a worker takes the first of two messages. -/
theorem no_message_lost_taken : ∃ s : State,
    (submissionQueue plainConfig).run start [.publish "first", .publish "second", .receive] =
        some s ∧ Accounted s 0 (namedSubmission plainConfig "first") := by
  have hstart : (submissionQueue plainConfig).Reachable start := .init ⟨_, rfl⟩
  obtain ⟨s, hrun⟩ : ∃ s, (submissionQueue plainConfig).run start
      [.publish "first", .publish "second", .receive] = some s := ⟨_, rfl⟩
  exact ⟨s, hrun, no_message_lost (hstart.run hrun) (Option.some.inj hrun ▸ rfl)⟩

/-- **The dead letters stay empty**: what is rejected goes nowhere. -/
theorem dead_letters_empty {cfg : Config} {s : State} (hs : (submissionQueue cfg).Reachable s) :
    ∀ e ∈ s.broker.ready, e.1 ≠ dlqName := by
  intro e he
  rcases (kept hs).routed.ready e he with ⟨hqueue, -⟩ | hqueue
  · rw [hqueue]
    decide
  · rw [hqueue]
    decide

/-- A run in which a message is rejected. -/
theorem dead_letters_empty_rejected : ∃ s : State,
    (submissionQueue plainConfig).run start [.publish "", .receive, .work 0 idle] = some s ∧
      ∀ e ∈ s.broker.ready, e.1 ≠ dlqName := by
  have hstart : (submissionQueue plainConfig).Reachable start := .init ⟨_, rfl⟩
  obtain ⟨s, hrun⟩ : ∃ s, (submissionQueue plainConfig).run start
      [.publish "", .receive, .work 0 idle] = some s := ⟨_, rfl⟩
  exact ⟨s, hrun, dead_letters_empty (hstart.run hrun)⟩

end Consumer
