/-
# Deliveries of one message

A delivery that finds no container sends a copy of its message to the retry queue, and counts
the retries in it; one that goes back on the queue comes again as it was.

* `next` : the body of the next delivery, if there is one.
* `Undisturbed` : the steps that the judge depends on all succeed.
* `deliveries_bounded_iff` : when a message is delivered at most thirteen times.
-/
import JudgePlatform.Api.Consumer

namespace Consumer

open Judge Program
open GoStruct (unmarshal)

/-! ## What is delivered again -/

/-- The body of the next delivery; `none` when the message is settled for good. -/
def next (cfg : Config) (env : Environment) (s : Api.Store) (body : String) : Option String :=
  let w := (eval (serve env) { db := { store := s } } (processSubmission cfg body)).2
  if w.settled = [.nack true] then some body else w.sent.head?

/-- The body of the delivery number `n`, in changing environments. -/
def delivered (cfg : Config) (env : ℕ → Environment) (s : ℕ → Api.Store) (body : String) :
    ℕ → Option String
  | 0 => some body
  | n + 1 => (delivered cfg env s body n).bind (next cfg (env n) (s n))

/-- What an end of a delivery leads to. -/
def Fate.next (body : String) : Fate → Option String
  | .requeued => some body
  | .retried copy => some copy
  | _ => none

theorem next_eq (cfg : Config) (env : Environment) (s : Api.Store) (body : String) :
    next cfg env s body = (fate cfg env body).next body := by
  have hended := (ends_processSubmission cfg env body { store := s }).2
  unfold next
  dsimp only
  generalize (eval (serve env) { db := { store := s } } (processSubmission cfg body)).2 = w
    at hended ⊢
  have hsettled : w.settled = (fate cfg env body).record.filterMap _ :=
    congrArg _ hended.record
  have hsent : w.sent = (fate cfg env body).record.filterMap _ := congrArg _ hended.record
  rw [hsettled, hsent]
  cases fate cfg env body with
  | requeued => rfl
  | retried copy => rfl
  | answered => rfl
  | rejected => rfl

/-! ## Messages that come again -/

/-- The name of the function is still there, or not needed. -/
def Named (sm : SubmissionMessage) : Prop :=
  sm.effectiveType = stdinProblem ∨ sm.functionName ≠ ""

theorem utf8Size_of_identChar {c : Char} (h : identChar c = true) : c.utf8Size = 1 := by
  have hascii : c.val ≤ 127 := by
    unfold identChar Char.isAlphanum Char.isAlpha Char.isUpper Char.isLower Char.isDigit at h
    simp only [Bool.or_eq_true, Bool.and_eq_true, decide_eq_true_eq] at h
    rcases h with ((⟨-, h⟩ | ⟨-, h⟩) | ⟨-, h⟩) | rfl
    · exact UInt32.le_trans h (by decide)
    · exact UInt32.le_trans h (by decide)
    · exact UInt32.le_trans h (by decide)
    · decide
  exact Char.utf8Size_eq_one_iff.mpr hascii

theorem byteLength_of_validIdent {name : String} (h : validIdent name = true) :
    Text.byteLength name ≤ maxFuncNameLen := by
  unfold validIdent at h
  unfold Text.byteLength maxFuncNameLen
  cases hname : name.toList with
  | nil => exact Nat.zero_le _
  | cons c cs =>
    rw [hname] at h
    simp only [Bool.and_eq_true, List.all_eq_true, decide_eq_true_eq] at h
    obtain ⟨⟨hstart, hrest⟩, hlength⟩ := h
    have hone : ∀ d ∈ c :: cs, d.utf8Size = 1 := by
      rw [List.forall_mem_cons]
      refine ⟨utf8Size_of_identChar ?_, fun d hd => utf8Size_of_identChar (hrest d hd)⟩
      unfold identStart at hstart
      unfold identChar Char.isAlphanum
      rw [Bool.or_eq_true] at hstart ⊢
      exact hstart.imp_left fun halpha => by rw [halpha]; rfl
    rw [List.map_congr_left hone, List.map_const', List.sum_replicate, smul_eq_mul, mul_one,
      List.length_cons]
    omega

theorem validIdent_sanitized {name : String} (h : (sanitizeFunctionName name).1 ≠ "") :
    validIdent (sanitizeFunctionName name).1 = true := by
  unfold sanitizeFunctionName at h ⊢
  split_ifs at h ⊢ with hident
  · exact hident
  · have hchars : ∀ c ∈ replaceInvalid name.toList, identChar c = true :=
      fun c hc => identChar_replaceInvalid hc
    have hkept := List.rdropWhile_prefix (fun c : Char => decide (c = '_'))
      (sanitized maxFuncNameLen name)
    rw [ validIdent_of_prefix hchars hkept]
    intro hnil
    exact h (congrArg String.ofList hnil)

/-- What the name says of a message that is valid otherwise. -/
theorem validate_rename {m : SubmissionMessage} (h : m.validate = .ok ()) (name : String) :
    ({ m with functionName := name } : SubmissionMessage).validate = .ok () ↔
      m.effectiveType = stdinProblem ∨ name ≠ "" ∧ Text.byteLength name ≤ maxFuncNameLen := by
  unfold SubmissionMessage.validate at h ⊢
  have htype : ({ m with functionName := name } : SubmissionMessage).effectiveType =
      m.effectiveType := rfl
  rw [htype]
  split_ifs at h ⊢ with _ _ _ _ _ _ _ hstdin _ _ hempty hlong
  · exact iff_of_true rfl (.inl hstdin)
  · refine iff_of_false id ?_
    rintro (h | ⟨h, -⟩)
    · exact hstdin h
    · exact h ‹_›
  · refine iff_of_false id ?_
    rintro (h | ⟨-, h⟩)
    · exact hstdin h
    · exact absurd ‹_› (not_lt.mpr h)
  · exact iff_of_true rfl (.inr ⟨‹_›, not_lt.mp ‹_›⟩)

theorem validate_represented (sm : SubmissionMessage) (n : ℤ) :
    ({ sm.represented with retryCount := n } : SubmissionMessage).validate = sm.validate := by
  have htests : ∀ ts : Option (List TestCase),
      (ts.map (List.map TestCase.represented)).any (2000 < ·.length) =
        ts.any (2000 < ·.length) := by
    intro ts
    cases ts with
    | none => rfl
    | some ts =>
      show decide (2000 < (ts.map TestCase.represented).length) = _
      rw [List.length_map]
      rfl
  unfold SubmissionMessage.validate
  rw [show ({ sm.represented with retryCount := n } : SubmissionMessage).tests =
    sm.tests.map (List.map TestCase.represented) from rfl, htests]
  rfl

/-- A message that passed was decoded, and has the name that the sanitizer left. -/
theorem of_decoded {decodeError : String → String} {body : String} {sm : SubmissionMessage}
    (h : validateAndDecodeSubmission decodeError body = (sm, none)) :
    ∃ m, unmarshal submissionMessage body {} = (m, true) ∧ m.validate = .ok () ∧
      sm = { m with functionName := (sanitizeFunctionName m.functionName).1 } := by
  have h' := h
  unfold validateAndDecodeSubmission at h'
  simp only at h'
  rcases hdecode : unmarshal submissionMessage body {} with ⟨m, ok⟩
  rw [hdecode] at h'
  cases ok with
  | false => cases h'
  | true =>
    cases hvalid : m.validate with
    | error e =>
      simp only [hvalid, if_true] at h'
      cases h'
    | ok u =>
      refine ⟨m, rfl, hvalid, ?_⟩
      exact (congrArg Prod.fst (h.symm.trans
        (validateAndDecodeSubmission_eq decodeError hdecode hvalid)))

/-- The copy of a message with its name is the message with one more retry. -/
theorem decode_retryBody {decodeError : String → String} {body : String} {sm : SubmissionMessage}
    (h : validateAndDecodeSubmission decodeError body = (sm, none))
    (hretry : sm.retryCount + 1 < 2 ^ 63) (hnamed : Named sm) :
    validateAndDecodeSubmission decodeError (retryBody body sm) =
      ({ sm.represented with
          retryCount := sm.retryCount + 1
          functionName := (sanitizeFunctionName sm.functionName).1 }, none) := by
  obtain ⟨m, hm, hvalid, rfl⟩ := of_decoded h
  have hdecoded : SubmissionMessage.Decoded
      { m with functionName := (sanitizeFunctionName m.functionName).1 } := by
    obtain ⟨h₁, h₂, h₃⟩ := hm ▸ decoded_unmarshal body
    exact ⟨h₁, h₂, h₃⟩
  refine validateAndDecodeSubmission_eq decodeError
    (unmarshal_retryBody hdecoded hretry body) ?_
  rw [validate_represented, validate_rename hvalid]
  refine hnamed.imp_right fun hname => ⟨hname, ?_⟩
  exact byteLength_of_validIdent (validIdent_sanitized hname)

/-- The copy of a message that has lost its name is rejected. -/
theorem decode_retryBody_nameless {decodeError : String → String} {body : String}
    {sm : SubmissionMessage} (h : validateAndDecodeSubmission decodeError body = (sm, none))
    (hretry : sm.retryCount + 1 < 2 ^ 63) (hnamed : ¬Named sm) :
    ∃ sm' e, validateAndDecodeSubmission decodeError (retryBody body sm) = (sm', some e) := by
  obtain ⟨m, hm, hvalid, rfl⟩ := of_decoded h
  have hdecoded : SubmissionMessage.Decoded
      { m with functionName := (sanitizeFunctionName m.functionName).1 } := by
    obtain ⟨h₁, h₂, h₃⟩ := hm ▸ decoded_unmarshal body
    exact ⟨h₁, h₂, h₃⟩
  unfold validateAndDecodeSubmission
  rw [unmarshal_retryBody hdecoded hretry body]
  simp only [if_true]
  rw [validate_represented]
  cases hrenamed : ({ m with functionName := (sanitizeFunctionName m.functionName).1 } :
      SubmissionMessage).validate with
  | error e => exact ⟨_, _, rfl⟩
  | ok u =>
    refine absurd ?_ hnamed
    exact ((validate_rename hvalid _).mp hrenamed).imp_right And.left

/-! ## Waiting for a container -/

/-- The steps that the judge depends on succeed, and the problems stay as they are. -/
structure Undisturbed (env : ℕ → Environment) : Prop where
  published : ∀ n, (env n).published = true
  workspace : ∀ n, (env n).workspace = true
  files : ∀ n, (env n).files = true
  problem : ∀ n, (env n).problem = (env 0).problem

/-- A message about a problem is not rejected before it asks for a container. -/
def Waits (cfg : Config) (sm : SubmissionMessage) (stored : Judge.Problem) : Prop :=
  sm.language ∈ languages ∧ ∃ problem,
    validateBasic cfg.outside cfg.decodeError stored = .ok problem ∧
      ((resolveStrategy problem.effectiveType).isNone → problem.effectiveType = functionProblem)

section Waiting

variable {cfg : Config} {env : ℕ → Environment} {s : ℕ → Api.Store} {body : String}
  {sm : SubmissionMessage} {stored : Judge.Problem} {k n : ℕ}

theorem next_fateIn {e : Environment} (hworkspace : e.workspace = true) (hfiles : e.files = true)
    (problem : Judge.Problem) (lang : String) :
    (fateIn cfg e sm problem lang).next body = none := by
  unfold fateIn
  cases centralStrategy cfg problem lang with
  | some strategy =>
    dsimp only
    split_ifs
    · rfl
    · rfl
  | none =>
    rw [hworkspace, hfiles]
    rfl

/-- What follows a delivery that waits. -/
theorem next_fateOf (h : Undisturbed env) (hwaits : Waits cfg sm stored) :
    (fateOf cfg (env k) body sm stored).next body =
      if (env k).executions sm.language = none ∧ sm.retryCount < maxSubmissionRetries then
        some (retryBody body sm)
      else none := by
  obtain ⟨hlang, problem, hvalid, hstrategy⟩ := hwaits
  unfold fateOf getLanguage
  rw [hvalid, if_pos hlang]
  dsimp only
  rw [if_neg fun hnone => hnone.2 (hstrategy hnone.1)]
  cases (env k).executions sm.language with
  | none =>
    unfold fateWithout
    dsimp only
    rw [h.published, if_pos rfl]
    by_cases hmax : maxSubmissionRetries ≤ sm.retryCount
    · rw [if_pos hmax, if_neg fun hcount => not_lt.mpr hmax hcount.2]
      rfl
    · rw [if_neg hmax, if_pos ⟨rfl, not_le.mp hmax⟩]
      rfl
  | some executions =>
    rw [if_neg fun hnone => Option.some_ne_none _ hnone.1]
    exact next_fateIn (h.workspace k) (h.files k) problem _

theorem fateOf_of_not_waits (e : Environment) (hwaits : ¬Waits cfg sm stored) :
    fateOf cfg e body sm stored = .rejected := by
  unfold fateOf
  cases hvalid : validateBasic cfg.outside cfg.decodeError stored with
  | error err => rfl
  | ok problem =>
    unfold getLanguage
    dsimp only
    by_cases hlang : sm.language ∈ languages
    · rw [if_pos hlang]
      dsimp only
      refine if_pos ?_
      by_contra hstrategy
      exact hwaits ⟨hlang, problem, hvalid, fun h => by_contra fun h' => hstrategy ⟨h, h'⟩⟩
    · rw [if_neg hlang]

/-- The body is that of the message after `k` retries, with its name. -/
def Retried (cfg : Config) (sm : SubmissionMessage) (k : ℕ) (b : String) : Prop :=
  ∃ sm', validateAndDecodeSubmission cfg.decodeError b = (sm', none) ∧
    sm'.problemID = sm.problemID ∧ sm'.language = sm.language ∧
    sm'.retryCount = sm.retryCount + k ∧ Named sm'

/-- A delivery that leaves the message waiting. -/
def Waiting (env : ℕ → Environment) (sm : SubmissionMessage) (k : ℕ) : Prop :=
  (env k).executions sm.language = none ∧ sm.retryCount + k < maxSubmissionRetries

/-- One more delivery of a message that keeps its name. -/
theorem Retried.next (h : Undisturbed env) (hstored : lookup (env 0) sm.problemID = some stored)
    (hwaits : Waits cfg sm stored) {b : String} (hb : Retried cfg sm k b) (st : Api.Store) :
    (Waiting env sm k →
        ∃ b', Consumer.next cfg (env k) st b = some b' ∧ Retried cfg sm (k + 1) b') ∧
      (¬Waiting env sm k → Consumer.next cfg (env k) st b = none) := by
  obtain ⟨sm', hdecode, hproblem, hlang, hcount, hnamed⟩ := hb
  have hlookup : lookup (env k) sm'.problemID = some stored := by
    unfold lookup at hstored ⊢
    rw [hproblem, h.problem k]
    exact hstored
  have hwaits' : Waits cfg sm' stored := by
    unfold Waits
    rw [hlang]
    exact hwaits
  have hnext : Consumer.next cfg (env k) st b =
      if (env k).executions sm.language = none ∧ sm.retryCount + k < maxSubmissionRetries then
        some (retryBody b sm')
      else none := by
    rw [next_eq]
    unfold fate
    rw [hdecode]
    dsimp only
    rw [hlookup]
    dsimp only
    rw [next_fateOf h hwaits', hlang, hcount]
  unfold Waiting
  constructor
  · intro hwaiting
    rw [if_pos hwaiting] at hnext
    refine ⟨_, hnext, _, decode_retryBody hdecode ?_ hnamed, hproblem, hlang, ?_, ?_⟩
    · have hsmall := hwaiting.2
      unfold maxSubmissionRetries at hsmall
      omega
    · show sm'.retryCount + 1 = _
      rw [hcount]
      push_cast
      ring
    · obtain ⟨m, -, -, rfl⟩ := of_decoded hdecode
      refine hnamed.imp id fun hname => ?_
      show (sanitizeFunctionName (sanitizeFunctionName m.functionName).1).1 ≠ ""
      rw [((wellNamed_iff _).mpr (validIdent_sanitized hname)).fixed]
      exact hname
  · intro hwaiting
    rw [if_neg hwaiting] at hnext
    exact hnext

/-- **A message that keeps its name is delivered as long as it waits.** -/
theorem delivered_cases (h : Undisturbed env)
    (hstored : lookup (env 0) sm.problemID = some stored) (hwaits : Waits cfg sm stored)
    (hbody : Retried cfg sm 0 body) (n : ℕ) :
    (∃ b, delivered cfg env s body n = some b ∧ Retried cfg sm n b ∧ ∀ i < n, Waiting env sm i) ∨
      delivered cfg env s body n = none ∧ ∃ i < n, ¬Waiting env sm i := by
  induction n with
  | zero => exact .inl ⟨body, rfl, hbody, fun i hi => absurd hi (Nat.not_lt_zero i)⟩
  | succ n ih =>
    unfold delivered
    rcases ih with ⟨b, hb, hretried, hall⟩ | ⟨hnone, i, hi, hnot⟩
    · rw [hb, Option.bind_some]
      have hnext := hretried.next h hstored hwaits (s n)
      by_cases hwaiting : Waiting env sm n
      · obtain ⟨b', hb', hretried'⟩ := hnext.1 hwaiting
        refine .inl ⟨b', hb', hretried', fun i hi => ?_⟩
        rcases Nat.lt_succ_iff_lt_or_eq.mp hi with hi | rfl
        · exact hall i hi
        · exact hwaiting
      · exact .inr ⟨hnext.2 hwaiting, n, Nat.lt_succ_self n, hwaiting⟩
    · rw [hnone]
      exact .inr ⟨rfl, i, Nat.lt_succ_of_lt hi, hnot⟩

theorem delivered_none_of_le (h : delivered cfg env s body k = none) (hkn : k ≤ n) :
    delivered cfg env s body n = none := by
  induction n, hkn using Nat.le_induction with
  | base => exact h
  | succ n _ ih =>
    unfold delivered
    rw [ih]
    rfl

/-- A message that loses its name is delivered once more at most. -/
theorem delivered_nameless (h : Undisturbed env)
    (hdecode : validateAndDecodeSubmission cfg.decodeError body = (sm, none))
    (hstored : lookup (env 0) sm.problemID = some stored) (hwaits : Waits cfg sm stored)
    (hnamed : ¬Named sm) : delivered cfg env s body 2 = none := by
  have hnext : next cfg (env 0) (s 0) body =
      if (env 0).executions sm.language = none ∧ sm.retryCount < maxSubmissionRetries then
        some (retryBody body sm)
      else none := by
    rw [next_eq]
    unfold fate
    rw [hdecode]
    dsimp only
    rw [hstored]
    exact next_fateOf h hwaits
  unfold delivered delivered delivered
  rw [Option.bind_some, hnext]
  split_ifs with hcond
  · have hretry : sm.retryCount + 1 < 2 ^ 63 := by
      have hsmall := hcond.2
      unfold maxSubmissionRetries at hsmall
      omega
    obtain ⟨sm', e, hrejected⟩ := decode_retryBody_nameless hdecode hretry hnamed
    rw [Option.bind_some, next_eq]
    unfold fate
    rw [hrejected]
    rfl
  · rfl

/-- A message without its problem comes again for ever. -/
theorem delivered_requeued (h : Undisturbed env)
    (hdecode : validateAndDecodeSubmission cfg.decodeError body = (sm, none))
    (hstored : lookup (env 0) sm.problemID = none) (n : ℕ) :
    delivered cfg env s body n = some body := by
  induction n with
  | zero => rfl
  | succ n ih =>
    have hlookup : lookup (env n) sm.problemID = none := by
      unfold lookup at hstored ⊢
      rw [h.problem n]
      exact hstored
    unfold delivered
    rw [ih, Option.bind_some, next_eq]
    unfold fate
    rw [hdecode]
    dsimp only
    rw [hlookup]
    rfl

/-- **When a message is delivered at most thirteen times.**  A message that is valid must find
its problem; if it then waits for a container, it must count its retries from zero on, lose its
name, or find a container in time. -/
theorem deliveries_bounded_iff (cfg : Config) (env : ℕ → Environment) (s : ℕ → Api.Store)
    (body : String) (h : Undisturbed env) :
    delivered cfg env s body (maxSubmissionRetries.toNat + 1) = none ↔
      ∀ sm, validateAndDecodeSubmission cfg.decodeError body = (sm, none) →
        ∃ stored, lookup (env 0) sm.problemID = some stored ∧
          (Waits cfg sm stored → 0 ≤ sm.retryCount ∨ ¬Named sm ∨
            ∃ i < maxSubmissionRetries.toNat + 1, (env i).executions sm.language ≠ none) := by
  rcases hdecode : validateAndDecodeSubmission cfg.decodeError body with ⟨sm, - | e⟩
  · cases hstored : lookup (env 0) sm.problemID with
    | none =>
      rw [delivered_requeued h hdecode hstored]
      refine iff_of_false (Option.some_ne_none body) fun hall => ?_
      obtain ⟨stored, hfound, -⟩ := hall sm rfl
      rw [hstored] at hfound
      cases hfound
    | some stored =>
      by_cases hwaits : Waits cfg sm stored
      · by_cases hnamed : Named sm
        · have hbody : Retried cfg sm 0 body :=
            ⟨sm, hdecode, rfl, rfl, (add_zero _).symm, hnamed⟩
          have hmax : (maxSubmissionRetries.toNat : ℤ) = maxSubmissionRetries := rfl
          rcases delivered_cases h hstored hwaits hbody (maxSubmissionRetries.toNat + 1) with
            ⟨b, hb, -, hall⟩ | ⟨hnone, i, hi, hnot⟩
          · rw [hb]
            refine iff_of_false (Option.some_ne_none b) fun hgood => ?_
            obtain ⟨stored', hfound, hreason⟩ := hgood sm rfl
            obtain rfl := Option.some.inj (hstored.symm.trans hfound)
            rcases hreason hwaits with hcount | hnameless | ⟨i, hi, hcontainer⟩
            · have hlast := (hall maxSubmissionRetries.toNat (Nat.lt_succ_self _)).2
              omega
            · exact hnameless hnamed
            · exact hcontainer (hall i hi).1
          · rw [hnone]
            refine iff_of_true rfl ?_
            rintro sm' hsm
            obtain ⟨rfl, -⟩ := Prod.mk.inj hsm
            refine ⟨stored, hstored, fun _ => ?_⟩
            by_cases hcontainer : (env i).executions sm.language = none
            · have hcount := mt (And.intro hcontainer) hnot
              exact .inl (by omega)
            · exact .inr (.inr ⟨i, hi, hcontainer⟩)
        · refine iff_of_true (delivered_none_of_le
            (delivered_nameless h hdecode hstored hwaits hnamed) (by decide)) ?_
          rintro sm' hsm
          obtain ⟨rfl, -⟩ := Prod.mk.inj hsm
          exact ⟨stored, hstored, fun _ => .inr (.inl hnamed)⟩
      · have hone : delivered cfg env s body 1 = none := by
          unfold delivered delivered
          rw [Option.bind_some, next_eq]
          unfold fate
          rw [hdecode]
          dsimp only
          rw [hstored]
          dsimp only
          rw [fateOf_of_not_waits (env 0) hwaits]
          rfl
        refine iff_of_true (delivered_none_of_le hone (by decide)) ?_
        rintro sm' hsm
        obtain ⟨rfl, -⟩ := Prod.mk.inj hsm
        exact ⟨stored, hstored, fun hw => absurd hw hwaits⟩
  · have hone : delivered cfg env s body 1 = none := by
      unfold delivered delivered
      rw [Option.bind_some, next_eq]
      unfold fate
      rw [hdecode]
      rfl
    refine iff_of_true (delivered_none_of_le hone (by decide)) ?_
    rintro sm' hsm
    cases hsm

end Waiting

/-- A judge without containers, and without problems. -/
def idle : Environment where
  problem := fun _ => none
  executions := fun _ => none
  published := true
  run := fun _ _ _ => (.error .deadlineExceeded, false)
  workspace := true
  files := true
  exec := ⟨"", "", none⟩
  cleaned := true
  refused := fun _ => false

def plainConfig : Config where
  lookupEnv := fun _ => none
  maxExecutionsPerContainer := 100
  decodeError := id
  outside := fun _ => 0
  bson := fun _ => .null

/-- A database without documents. -/
def bareStore : Api.Store where
  clock := .zero
  students := []
  assessments := []
  attempts := []
  problems := []
  counts := []
  submissions := []
  usageEvents := []
  cache := []
  queue := []

/-- A message whose problem has no valid identifier is delivered a fourteenth time. -/
theorem deliveries_bounded_iff_unknown :
    delivered plainConfig (fun _ => idle) (fun _ => bareStore) (messageBody "f") 13 ≠ none := by
  have h : Undisturbed fun _ => idle := ⟨fun _ => rfl, fun _ => rfl, fun _ => rfl, fun _ => rfl⟩
  have hdecode := validateAndDecodeSubmission_eq id (unmarshal_messageBody "f") rfl
  intro hnone
  obtain ⟨stored, hstored, -⟩ :=
    (deliveries_bounded_iff plainConfig _ (fun _ => bareStore) _ h).mp hnone _ hdecode
  cases hstored

end Consumer
