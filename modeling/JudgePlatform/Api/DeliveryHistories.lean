/-
# What a delivery tells the broker

A delivery is settled once, whatever the database and the containers answer, and not
acknowledged before its submission has got a final status or its copy is on the retry queue.
Unlike `ends_processSubmission` this holds with other deliveries in between: it is about what
one delivery has asked for so far.

* `History` : what the broker was told, and the submissions that have got a final status.
* `Asks` : what a delivery may ask for, given its history.
* `settles_processSubmission` : the consumer keeps to it.
-/
import JudgePlatform.Api.Deliveries
import JudgePlatform.Library.Histories

namespace Consumer

open Judge Program
open Api (ObjectId ServiceError Submission Verdict)
open GoStruct (unmarshal)

/-! ## The history of a delivery -/

/-- What the broker was told, and the submissions for which a final status was to be written. -/
structure History where
  record : List Event := []
  finals : List ObjectId := []

namespace History

def tell (h : History) (e : Event) : History := { h with record := h.record ++ [e] }

/-- The delivery has been settled. -/
def Closed (h : History) : Prop := ∃ x, Event.settled x ∈ h.record

theorem closed_tell (h : History) (x : Settlement) : (h.tell (.settled x)).Closed :=
  ⟨x, List.mem_append_right _ (List.mem_singleton_self _)⟩

end History

def note (h : History) : (r : Request) → Except ServiceError (Reply r) → History
  | .publishRetry body, .ok _ => h.tell (.sent body)
  | .ack, _ => h.tell (.settled .ack)
  | .nack requeue, _ => h.tell (.settled (.nack requeue))
  | .base (.storeResult id _ _ _), _ => { h with finals := h.finals ++ [id] }
  | .base (.storeFailure id _), _ => { h with finals := h.finals ++ [id] }
  | _, _ => h

/-- These requests are always answered. -/
def Answers : (r : Request) → Except ServiceError (Reply r) → Prop
  | .acquire _, x => ∃ a, x = .ok a
  | .run _ _ _, x => ∃ a, x = .ok a
  | .runInContainer _, x => ∃ a, x = .ok a
  | _, _ => True

/-- Only final statuses are written to submissions. -/
def WritesFinal : Api.Request → Prop
  | .storeResult _ status _ _ => Terminal status
  | .storeFailure _ _ => True
  | r => publishes r = true

/-- What the delivery of a message may ask for that names the submission `id`: one settlement, an
acknowledgement only after the submission has got a final status or a copy is on the retry
queue. -/
def Asks (cfg : Config) (id : String) (h : History) : Request → Prop
  | .publishRetry copy => h.record = [] ∧ namedSubmission cfg copy = id
  | .ack =>
    (∃ copy, h.record = [.sent copy]) ∨
      h.record = [] ∧ (Api.isObjectId id = true → id ∈ h.finals)
  | .nack _ => h.record = []
  | .base r => WritesFinal r
  | _ => True

section Records

variable {cfg : Config} {id body lang : String} {h : History} {sm : SubmissionMessage}
  {problem : Judge.Problem}

/-- The runs of a part of the consumer that end with a settled delivery. -/
def Settles (cfg : Config) (id : String) (h : History) (t : Task Unit) : Prop :=
  t.Records note Answers (Asks cfg id) (fun h _ => h.Closed) h

/-- The runs of a part of the consumer that leaves the broker alone. -/
def Stores (cfg : Config) (id : String) (t : Task Unit) : Prop :=
  t.Records note Answers (Asks cfg id)
    (fun h x => x = .ok () ∧ h.record = [] ∧ (Api.isObjectId id = true → id ∈ h.finals)) {}

theorem settles_settle {r : Request} (hr : Asks cfg id h r)
    (hclosed : ∀ x, (note h r x).Closed) : Settles cfg id h (settle r) :=
  Records.try_bind hr fun x _ => hclosed x

theorem settles_ack (hr : Asks cfg id h .ack) : Settles cfg id h (settle .ack) :=
  settles_settle hr fun _ => h.closed_tell _

theorem settles_nack {requeue : Bool} (hr : h.record = []) :
    Settles cfg id h (settle (.nack requeue)) :=
  settles_settle hr fun _ => h.closed_tell _

/-- What follows the settlement leaves no note. -/
theorem settles_finishWithContainer {discard : Bool} (hh : h.Closed) :
    Settles cfg id h (finishWithContainer discard) :=
  Records.try_bind trivial fun _ _ => hh

theorem settles_cleanup {discard : Bool} (hh : h.Closed) : Settles cfg id h (cleanup discard) :=
  Records.try_bind trivial fun _ _ => settles_finishWithContainer hh

theorem Settles.bind_finish {t last : Task Unit} (ht : Settles cfg id h t)
    (hlast : ∀ h : History, h.Closed → Settles cfg id h last) :
    Settles cfg id h (t >>= fun _ => last) :=
  Records.bind ht (fun h _ hh => hlast h hh) fun _ _ hh => hh

/-- An acknowledgement after the submission has got a final status. -/
theorem Stores.settles {t : Task Unit} (ht : Stores cfg id t) :
    Settles cfg id {} (t >>= fun _ => settle .ack) := by
  refine Records.bind ht ?_ ?_
  · rintro h - ⟨-, hrecord, hfinals⟩
    exact settles_ack (.inr ⟨hrecord, hfinals⟩)
  · rintro h e ⟨he, -⟩
    cases he

/-- Requests to the database and the cache, one by one. -/
theorem records_lower {α : Type} {Q : History → Except ServiceError α → Prop} {t : Api.Task α}
    (ht : t.Records (fun h r => note h (.base r)) (fun _ _ => True) (fun _ r => WritesFinal r) Q
      h) : (lower t).Records note Answers (Asks cfg id) Q h := by
  refine Records.expand (fun h r hr => ?_) ht
  have hasks : Asks cfg id h (.base r) := hr
  exact Records.call hasks fun x _ => ⟨rfl, trivial⟩

theorem note_publishes {r : Api.Request} (hr : publishes r = true)
    (x : Except ServiceError (Api.Reply r)) : note h (.base r) x = h := by
  cases r with
  | countVerdict id accepted => rfl
  | findSubmission id => rfl
  | recordUsage e => rfl
  | setCache k text => rfl
  | _ => cases hr

theorem writesFinal_of_publishes {r : Api.Request} (hr : publishes r = true) : WritesFinal r := by
  cases r with
  | countVerdict id accepted => rfl
  | findSubmission id => rfl
  | recordUsage e => rfl
  | setCache k text => rfl
  | _ => cases hr

theorem stores_processAndStoreResults (executionPath stdout stderr : String)
    (execErr : Option GoError) :
    Stores cfg sm.submissionID
      (processAndStoreResults cfg sm executionPath stdout stderr execErr) := by
  refine records_lower ?_
  unfold Api.storeVerdict
  by_cases hid : Api.isObjectId sm.submissionID = true
  · rw [if_pos hid]
    refine Records.try_bind (terminal_outcome _ _ _ _ _) fun x _ => ?_
    have hasks := fun v : Verdict => @publishVerdict_asks Unit (fun _ _ _ => ())
      (fun _ r => publishes r = true) (fun _ _ hr => hr) v ()
    refine (Records.of_obeys (hasks _) (fun _ => writesFinal_of_publishes)
      fun r x hr => note_publishes hr x).mono ?_
    rintro h y ⟨rfl, rfl⟩
    exact ⟨rfl, rfl, fun _ => List.mem_singleton_self _⟩
  · rw [if_neg hid]
    exact ⟨rfl, rfl, fun h => absurd h hid⟩

theorem stores_markFailed (id reason : String) :
    Stores cfg id (lower (Api.markSubmissionExecutionFailed id reason)) := by
  refine records_lower ?_
  unfold Api.markSubmissionExecutionFailed
  by_cases hid : Api.isObjectId id = true
  · rw [if_pos hid]
    exact Records.try_bind trivial fun x _ => ⟨rfl, rfl, fun _ => List.mem_singleton_self _⟩
  · rw [if_neg hid]
    exact ⟨rfl, rfl, fun h => absurd h hid⟩

/-! ## The exits -/

theorem settles_settleRun (ran : Except GoError SubmissionResult) :
    Settles cfg sm.submissionID {} (settleRun cfg sm ran) := by
  unfold settleRun
  cases ran with
  | error err => exact settles_nack rfl
  | ok result =>
    dsimp only
    cases toJSON result with
    | error e => exact settles_nack rfl
    | ok resultBytes => exact (stores_processAndStoreResults _ _ _ _).settles

theorem settles_runCentral (strategy : Strategy) (worn : Bool) :
    Settles cfg sm.submissionID {} (runCentral cfg sm problem strategy worn) := by
  refine ⟨trivial, ?_⟩
  rintro x ⟨run, rfl⟩
  exact (settles_settleRun run.1).bind_finish fun _ hh => settles_finishWithContainer hh

theorem settles_runLegacy (worn : Bool) :
    Settles cfg sm.submissionID {} (runLegacy cfg sm problem worn) := by
  refine Records.try_bind trivial fun x _ => ?_
  cases x with
  | error e =>
    exact Settles.bind_finish (settles_nack rfl) fun _ hh => settles_finishWithContainer hh
  | ok u =>
    refine Records.try_bind trivial fun x _ => ?_
    cases x with
    | error e => exact Settles.bind_finish (settles_nack rfl) fun _ hh => settles_cleanup hh
    | ok u =>
      refine ⟨trivial, ?_⟩
      rintro x ⟨run, rfl⟩
      have hstores : Stores cfg sm.submissionID
          (processAndStoreResults cfg sm executionPathLegacy run.stdout run.stderr run.err) :=
        stores_processAndStoreResults _ _ _ _
      have hcleanup : ∀ h : History, h.Closed → Settles cfg sm.submissionID h
          (cleanup (worn || Hygiene.shouldDiscardContainer (run.err, none) false)) :=
        fun _ hh => settles_cleanup hh
      have hassoc := bind_assoc
        (processAndStoreResults cfg sm executionPathLegacy run.stdout run.stderr run.err)
        (fun _ => settle .ack)
        fun _ => cleanup (worn || Hygiene.shouldDiscardContainer (run.err, none) false)
      exact (congrArg (Settles cfg sm.submissionID {}) hassoc).mp
        (hstores.settles.bind_finish hcleanup)

theorem settles_runIn (worn : Bool) :
    Settles cfg sm.submissionID {} (runIn cfg sm problem lang worn) := by
  unfold runIn
  cases centralStrategy cfg problem lang with
  | some strategy => exact settles_runCentral strategy worn
  | none => exact settles_runLegacy worn

/-- Whatever is wrong with a body, it names the submission that is decoded. -/
theorem namedSubmission_eq (cfg : Config) (body : String) :
    namedSubmission cfg body = (unmarshal submissionMessage body {}).1.submissionID := by
  unfold namedSubmission validateAndDecodeSubmission
  dsimp only
  by_cases hok : (unmarshal submissionMessage body {}).2 = true
  · rw [if_pos hok]
    cases (unmarshal submissionMessage body {}).1.validate with
    | error e => rfl
    | ok u =>
      dsimp only
      split_ifs
      · rfl
      · rfl
  · rw [if_neg hok]

/-- The copy on the retry queue names the same submission. -/
theorem namedSubmission_retryBody
    (h : validateAndDecodeSubmission cfg.decodeError body = (sm, none))
    (hretry : sm.retryCount < maxSubmissionRetries) :
    namedSubmission cfg (retryBody body sm) = sm.submissionID := by
  have hsmall : sm.retryCount + 1 < 2 ^ 63 := by
    unfold maxSubmissionRetries at hretry
    omega
  obtain ⟨m, hm, hvalid, rfl⟩ := of_decoded h
  have hdecoded : SubmissionMessage.Decoded
      { m with functionName := (sanitizeFunctionName m.functionName).1 } := by
    obtain ⟨h₁, h₂, h₃⟩ := hm ▸ decoded_unmarshal body
    exact ⟨h₁, h₂, h₃⟩
  rw [namedSubmission_eq, unmarshal_retryBody hdecoded hsmall body]
  rfl

theorem settles_withoutContainer
    (h : validateAndDecodeSubmission cfg.decodeError body = (sm, none)) :
    Settles cfg sm.submissionID {} (withoutContainer sm body lang) := by
  unfold withoutContainer
  split_ifs with hretries
  · exact (stores_markFailed _ _).settles
  · refine Records.try_bind ⟨rfl, namedSubmission_retryBody h (not_le.mp hretries)⟩
      fun x _ => ?_
    cases x with
    | ok u => exact settles_ack (.inl ⟨_, rfl⟩)
    | error e => exact settles_nack rfl

theorem Settles.fetched {problemID : String} {g : Option Judge.Problem → Task Unit}
    (hg : ∀ found, Settles cfg id {} (g found)) :
    Settles cfg id {} (fetchProblemData problemID >>= g) := by
  unfold fetchProblemData
  split_ifs
  · exact Records.try_bind trivial fun x _ => hg x.toOption
  · exact hg none

/-- **Every delivery is settled once**, and is not acknowledged before its submission has got a
final status or its copy is on the retry queue. -/
theorem settles_processSubmission (cfg : Config) (body : String) :
    Settles cfg (namedSubmission cfg body) {} (processSubmission cfg body) := by
  unfold namedSubmission processSubmission
  rcases hdecode : validateAndDecodeSubmission cfg.decodeError body with ⟨sm, - | err⟩
  · apply Settles.fetched
    intro found
    dsimp only
    cases found with
    | none => exact settles_nack rfl
    | some stored =>
      dsimp only
      cases validateBasic cfg.outside cfg.decodeError stored with
      | error err => exact settles_nack rfl
      | ok problem =>
        dsimp only
        cases getLanguage sm.language with
        | none => exact settles_nack rfl
        | some lang =>
          dsimp only
          split_ifs
          · exact settles_nack rfl
          · refine ⟨trivial, ?_⟩
            rintro x ⟨container, rfl⟩
            cases container with
            | none => exact settles_withoutContainer hdecode
            | some executions => exact settles_runIn _
  · exact settles_nack rfl

end Records

end Consumer
