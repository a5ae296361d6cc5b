/-
# Challenges

`raiseChallenge` and `resolveChallenge` check the status of the challenge that they
read, and then write the next one.  The order None, Raised, Accepted or Rejected is
kept as long as the status that a call read is still the stored one when it writes.

* `challenge_settled_once` : in every interleaving of such writes at most one raise
  and at most one resolve return, and the challenge carries what they wrote.
-/
import JudgePlatform.Api.AttemptRuns

namespace Api

/-- No challenge is written by a call whose read of its status has been overtaken. -/
def ChallengeCurrent (s : Store) (_ : Operation) (v : AttemptView) (r : Request) : Prop :=
  ∀ id u a b, r = .updateAttempt id u → u.challengeStatus ≠ none → s.attempt id = some a →
    v.opened = some (id, b) → b.challenge.status = a.challenge.status

/-! ## Raises and resolves -/

abbrev Entry := Operation × List (ObjectId × AttemptUpdate)

/-- A raise on the attempt. -/
def Operation.raises (id : ObjectId) : Operation → Bool
  | .raiseChallenge i _ _ => i = id
  | _ => false

def Operation.resolves (id : ObjectId) : Operation → Bool
  | .resolveChallenge i _ _ _ => i = id
  | _ => false

/-- A raise that has written. -/
def raised (id : ObjectId) (e : Entry) : Bool := e.1.raises id && e.2 ≠ []

def resolved (id : ObjectId) (e : Entry) : Bool := e.1.resolves id && e.2 ≠ []

/-- The reason that an operation gives the challenge. -/
def Operation.reason : Operation → Option String
  | .raiseChallenge _ reason _ => reason
  | _ => none

/-- The decision that an operation takes. -/
def Operation.decision : Operation → Option ChallengeStatus
  | .resolveChallenge _ status _ _ => challengeDecision status
  | _ => none

/-- What the challenge of the attempt carries of a call that has written. -/
structure Carries (id : ObjectId) (c : Challenge) (e : Entry) : Prop where
  reason : raised id e = true → c.status ≠ .none ∧ ∀ r, e.1.reason = some r → c.reason = some r
  decision : resolved id e = true → e.1.decision = some c.status

theorem challengeDecision_ne {status : String} {d : ChallengeStatus}
    (h : challengeDecision status = some d) : d ≠ .none ∧ d ≠ .raised := by
  unfold challengeDecision at h
  split_ifs at h
  · cases h
    decide
  · cases h
    decide

/-- What an update does to the challenge: nothing, or one of the two moves. -/
theorem Writes.challenge {v : AttemptView} {j : ObjectId} {u : AttemptUpdate} {op : Operation}
    (h : Writes v j u op) :
    (∃ reason user b t t', op = .raiseChallenge j reason user ∧ v.opened = some (j, b) ∧
      b.challenge.status = .none ∧ u = raise reason t t') ∨
    (∃ status comment user b d t t', op = .resolveChallenge j status comment user ∧
      v.opened = some (j, b) ∧ b.challenge.status = .raised ∧
      challengeDecision status = some d ∧ u = resolve d comment t t') ∨
    ((∀ a, (u.apply a).challenge = a.challenge) ∧ (∀ id, op.raises id = false) ∧
      ∀ id, op.resolves id = false) := by
  cases op with
  | raiseChallenge i reason user =>
    obtain ⟨rfl, b, t, t', hb, hnone, hu⟩ := h
    exact Or.inl ⟨reason, user, b, t, t', rfl, hb, hnone, hu⟩
  | resolveChallenge i status comment user =>
    obtain ⟨rfl, b, d, t, t', hb, hraised, hd, hu⟩ := h
    exact Or.inr (Or.inl ⟨status, comment, user, b, d, t, t', rfl, hb, hraised, hd, hu⟩)
  | submitAssessment i user =>
    right
    right
    obtain ⟨-, ⟨total, rfl⟩ | ⟨a, -, -, ⟨t, rfl⟩ | ⟨t, t', rfl⟩⟩⟩ := h
    · exact ⟨fun _ => rfl, fun _ => rfl, fun _ => rfl⟩
    · exact ⟨fun _ => rfl, fun _ => rfl, fun _ => rfl⟩
    · exact ⟨fun _ => rfl, fun _ => rfl, fun _ => rfl⟩
  | getAssessmentAttemptById i user =>
    right
    right
    obtain ⟨-, ⟨total, rfl⟩ | ⟨a, -, -, t, rfl⟩⟩ := h
    · exact ⟨fun _ => rfl, fun _ => rfl, fun _ => rfl⟩
    · exact ⟨fun _ => rfl, fun _ => rfl, fun _ => rfl⟩
  | addGraceTime i minutes user =>
    right
    right
    obtain ⟨-, a, t, -, rfl⟩ := h
    exact ⟨fun _ => rfl, fun _ => rfl, fun _ => rfl⟩
  | submitSolution x =>
    right
    right
    obtain ⟨-, ⟨t, p, title, d, rfl⟩ | ⟨a, t, -, -, rfl⟩⟩ := h
    · exact ⟨fun _ => rfl, fun _ => rfl, fun _ => rfl⟩
    · exact ⟨fun _ => rfl, fun _ => rfl, fun _ => rfl⟩
  | wait ms => exact h.elim

/-! ## The invariant -/

/-- At most one raise and one resolve have written, and the stored challenge carries
what they wrote. -/
structure ChallengeKept (id : ObjectId) (a : Attempt) (s : AttemptConfig) : Prop where
  stored : s.store.attempt id = some a
  carries : ∀ e ∈ made s, Carries id a.challenge e
  oneRaise : (made s).countP (raised id) ≤ 1
  oneResolve : (made s).countP (resolved id) ≤ 1

theorem raised_nil (id : ObjectId) (op : Operation) : raised id (op, []) = false :=
  Bool.and_false _

theorem resolved_nil (id : ObjectId) (op : Operation) : resolved id (op, []) = false :=
  Bool.and_false _

/-- A call that has written nothing leaves every challenge. -/
theorem carries_nil (id : ObjectId) (c : Challenge) (op : Operation) : Carries id c (op, []) :=
  ⟨fun h => absurd h (by rw [raised_nil]; exact Bool.false_ne_true),
    fun h => absurd h (by rw [resolved_nil]; exact Bool.false_ne_true)⟩

/-- A challenge that nobody has raised was not written. -/
theorem Carries.not_raised {id : ObjectId} {c : Challenge} {e : Entry} (h : Carries id c e)
    (hc : c.status = .none) : raised id e = false ∧ resolved id e = false := by
  constructor
  · exact Bool.eq_false_iff.mpr fun he => (h.reason he).1 hc
  · refine Bool.eq_false_iff.mpr fun he => ?_
    have hdecision := h.decision he
    obtain ⟨op, ws⟩ := e
    cases op with
    | resolveChallenge i status comment user => exact (challengeDecision_ne hdecision).1 hc
    | _ => cases he

/-- A challenge that is raised was not resolved. -/
theorem Carries.not_resolved {id : ObjectId} {c : Challenge} {e : Entry} (h : Carries id c e)
    (hc : c.status = .raised) : resolved id e = false := by
  refine Bool.eq_false_iff.mpr fun he => ?_
  have hdecision := h.decision he
  obtain ⟨op, ws⟩ := e
  cases op with
  | resolveChallenge i status comment user => exact (challengeDecision_ne hdecision).2 hc
  | _ => cases he

section Steps

variable {Init : Store → Prop} {s s' : AttemptConfig} {act : Service.Action Operation Choice}
  {id : ObjectId} {a : Attempt}

/-- A step in which a call writes elsewhere. -/
theorem ChallengeKept.set_other (h : ChallengeKept id a s) {a' : Attempt} {i : ℕ} {e : Entry}
    (hstored : s'.store.attempt id = some a') (hchallenge : a'.challenge = a.challenge)
    (hmade : made s' = (made s).set i e) (hraises : e.1.raises id = false)
    (hresolves : e.1.resolves id = false) : ChallengeKept id a' s' := by
  have hr : raised id e = false := by unfold raised; rw [hraises]; rfl
  have hv : resolved id e = false := by unfold resolved; rw [hresolves]; rfl
  refine ⟨hstored, ?_, ?_, ?_⟩
  · intro e' he'
    rw [hchallenge]
    rw [hmade] at he'
    rcases List.mem_or_eq_of_mem_set he' with he' | rfl
    · exact h.carries e' he'
    · exact ⟨fun h => absurd (hr.symm.trans h) Bool.false_ne_true,
        fun h => absurd (hv.symm.trans h) Bool.false_ne_true⟩
  · rw [hmade]
    refine (List.countP_set_le (raised id) _ i e).trans ?_
    rw [hr]
    exact h.oneRaise
  · rw [hmade]
    refine (List.countP_set_le (resolved id) _ i e).trans ?_
    rw [hv]
    exact h.oneResolve

/-- **Each step keeps the order of the challenge.** -/
theorem ChallengeKept.step
    (hs : (attemptSystem Init).ReachableVia (Service.When ChallengeCurrent) s)
    (h : ChallengeKept id a s) (hC : Service.When ChallengeCurrent s act)
    (hstep : attemptService.step s act = some s') : ∃ a', ChallengeKept id a' s' := by
  rcases step_updates hs hstep with ⟨hattempts, hmade⟩ |
    ⟨i, c, op, v, j, u, next, rfl, hi, hw, hstore, hmade⟩
  · have hstored : s'.store.attempt id = some a := by
      unfold Store.attempt
      rw [hattempts]
      exact h.stored
    rcases hmade with hmade | ⟨op, hmade⟩
    · exact ⟨a, hstored, hmade ▸ h.carries, hmade ▸ h.oneRaise, hmade ▸ h.oneResolve⟩
    · refine ⟨a, hstored, ?_, ?_, ?_⟩
      · intro e he
        rw [hmade] at he
        rcases List.mem_append.mp he with he | he
        · exact h.carries e he
        · rw [List.mem_singleton.mp he]
          exact carries_nil id _ op
      · rw [hmade, List.countP_append, List.countP_singleton, raised_nil]
        exact h.oneRaise
      · rw [hmade, List.countP_append, List.countP_singleton, resolved_nil]
        exact h.oneResolve
  rcases hw.challenge with ⟨reason, user, b, t, t', rfl, hb, hnone, rfl⟩ |
    ⟨status, comment, user, b, d, t, t', rfl, hb, hraised, hd, rfl⟩ | ⟨hu, hraises, hresolves⟩
  · by_cases hj : j = id
    · subst hj
      have hstatus : a.challenge.status = .none := by
        rw [← hC _ v _ next hi j _ a b rfl (by simp [raise]) h.stored hb]
        exact hnone
      have hfree : ∀ e ∈ made s, raised j e = false ∧ resolved j e = false :=
        fun e he => (h.carries e he).not_raised hstatus
      refine ⟨(raise reason t t').apply a, ?_, ?_, ?_, ?_⟩
      · rw [hstore, attempt_updateAttempt, if_pos rfl, h.stored]
        rfl
      · intro e he
        rw [hmade] at he
        rcases List.mem_or_eq_of_mem_set he with he | rfl
        · exact ⟨fun hr => absurd ((hfree e he).1.symm.trans hr) Bool.false_ne_true,
            fun hr => absurd ((hfree e he).2.symm.trans hr) Bool.false_ne_true⟩
        · refine ⟨fun _ => ⟨show ChallengeStatus.raised ≠ .none by decide, ?_⟩, fun hr => absurd hr Bool.false_ne_true⟩
          intro r hr
          show reason.or a.challenge.reason = some r
          rw [show reason = some r from hr]
          rfl
      · rw [hmade]
        refine (List.countP_set_le (raised j) _ i _).trans ?_
        rw [List.countP_eq_zero.mpr fun e he => by rw [(hfree e he).1]; exact Bool.false_ne_true]
        split <;> decide
      · rw [hmade]
        refine (List.countP_set_le (resolved j) _ i _).trans ?_
        rw [List.countP_eq_zero.mpr fun e he => by rw [(hfree e he).2]; exact Bool.false_ne_true]
        split <;> decide
    · refine ⟨a, h.set_other ?_ rfl hmade (decide_eq_false hj) rfl⟩
      rw [hstore, attempt_updateAttempt, if_neg fun h => hj h.symm]
      exact h.stored
  · by_cases hj : j = id
    · subst hj
      have hstatus : a.challenge.status = .raised := by
        rw [← hC _ v _ next hi j _ a b rfl (by simp [resolve]) h.stored hb]
        exact hraised
      have hfree : ∀ e ∈ made s, resolved j e = false :=
        fun e he => (h.carries e he).not_resolved hstatus
      refine ⟨(resolve d comment t t').apply a, ?_, ?_, ?_, ?_⟩
      · rw [hstore, attempt_updateAttempt, if_pos rfl, h.stored]
        rfl
      · intro e he
        rw [hmade] at he
        rcases List.mem_or_eq_of_mem_set he with he | rfl
        · refine ⟨fun hr => ⟨(challengeDecision_ne hd).1, fun r hreason => ?_⟩,
            fun hr => absurd ((hfree e he).symm.trans hr) Bool.false_ne_true⟩
          exact ((h.carries e he).reason hr).2 r hreason
        · exact ⟨fun hr => absurd hr Bool.false_ne_true, fun _ => hd⟩
      · rw [hmade]
        exact (List.countP_set_le (raised j) _ i _).trans h.oneRaise
      · rw [hmade]
        refine (List.countP_set_le (resolved j) _ i _).trans ?_
        rw [List.countP_eq_zero.mpr fun e he => by rw [hfree e he]; exact Bool.false_ne_true]
        split <;> decide
    · refine ⟨a, h.set_other ?_ rfl hmade rfl (decide_eq_false hj)⟩
      rw [hstore, attempt_updateAttempt, if_neg fun h => hj h.symm]
      exact h.stored
  · by_cases hj : id = j
    · refine ⟨u.apply a, h.set_other ?_ (hu a) hmade (hraises id) (hresolves id)⟩
      rw [hstore, attempt_updateAttempt, if_pos hj, h.stored]
      rfl
    · refine ⟨a, h.set_other ?_ rfl hmade (hraises id) (hresolves id)⟩
      rw [hstore, attempt_updateAttempt, if_neg hj]
      exact h.stored

end Steps

/-! ## Calls that returned -/

abbrev AttemptCall := Service.Call Operation AttemptView Reply ServiceError Response

def returnedRaise (id : ObjectId) (c : AttemptCall) : Bool := c.op.raises id && c.rest.isDone

def returnedResolve (id : ObjectId) (c : AttemptCall) : Bool := c.op.resolves id && c.rest.isDone

theorem Operation.updatesOnce_of_raises {id : ObjectId} {op : Operation}
    (h : op.raises id = true) : op.updatesOnce = true := by
  cases op with
  | raiseChallenge i reason user => rfl
  | _ => cases h

theorem Operation.updatesOnce_of_resolves {id : ObjectId} {op : Operation}
    (h : op.resolves id = true) : op.updatesOnce = true := by
  cases op with
  | resolveChallenge i status comment user => rfl
  | _ => cases h

section Returned

variable {Init : Store → Prop} {C : AttemptConfig → Service.Action Operation Choice → Prop}
  {s : AttemptConfig} (hs : (attemptSystem Init).ReachableVia C s) (id : ObjectId)
  {c : AttemptCall} (hc : c ∈ s.calls)

include hs hc

/-- A raise has returned if and only if it has written. -/
theorem returnedRaise_eq : returnedRaise id c = raised id (c.op, c.view.written) := by
  unfold returnedRaise raised
  cases hop : c.op.raises id with
  | false => rfl
  | true =>
    rw [Bool.true_and, Bool.true_and, Bool.eq_iff_iff, decide_eq_true_eq]
    exact isDone_iff hs hc (Operation.updatesOnce_of_raises hop)

theorem returnedResolve_eq : returnedResolve id c = resolved id (c.op, c.view.written) := by
  unfold returnedResolve resolved
  cases hop : c.op.resolves id with
  | false => rfl
  | true =>
    rw [Bool.true_and, Bool.true_and, Bool.eq_iff_iff, decide_eq_true_eq]
    exact isDone_iff hs hc (Operation.updatesOnce_of_resolves hop)

end Returned

/-- **A challenge is raised once and resolved once**, as long as no call writes it
whose read of its status has been overtaken; it carries the reason of the raise and
the decision of the resolve that returned. -/
theorem challenge_settled_once {id : ObjectId} {a₀ : Attempt} {s : AttemptConfig}
    (hs : (attemptSystem fun st => st.attempt id = some a₀).ReachableVia
      (Service.When ChallengeCurrent) s) :
    s.calls.countP (returnedRaise id) ≤ 1 ∧ s.calls.countP (returnedResolve id) ≤ 1 ∧
    ∃ a, s.store.attempt id = some a ∧
      (∀ c ∈ s.calls, returnedRaise id c = true →
        ∀ r, c.op.reason = some r → a.challenge.reason = some r) ∧
      ∀ c ∈ s.calls, returnedResolve id c = true → c.op.decision = some a.challenge.status := by
  have hkept : ∃ a, ChallengeKept id a s := by
    induction hs with
    | init h =>
      refine ⟨a₀, h.1, ?_, ?_, ?_⟩
      · intro e he
        unfold made at he
        rw [h.2] at he
        exact absurd he List.not_mem_nil
      · unfold made
        rw [h.2]
        exact Nat.zero_le _
      · unfold made
        rw [h.2]
        exact Nat.zero_le _
    | step hs hC hstep ih =>
      obtain ⟨a, ha⟩ := ih
      exact ha.step hs hC hstep
  obtain ⟨a, h⟩ := hkept
  have hmem : ∀ c ∈ s.calls, (c.op, c.view.written) ∈ made s :=
    fun c hc => List.mem_map.mpr ⟨c, hc, rfl⟩
  refine ⟨?_, ?_, a, h.stored, ?_, ?_⟩
  · have hone := h.oneRaise
    unfold made at hone
    rw [List.countP_map] at hone
    exact (List.countP_congr fun c hc => by rw [returnedRaise_eq hs id hc]; rfl).trans_le hone
  · have hone := h.oneResolve
    unfold made at hone
    rw [List.countP_map] at hone
    exact (List.countP_congr fun c hc => by rw [returnedResolve_eq hs id hc]; rfl).trans_le hone
  · intro c hc hr
    rw [returnedRaise_eq hs id hc] at hr
    exact ((h.carries _ (hmem c hc)).reason hr).2
  · intro c hc hr
    rw [returnedResolve_eq hs id hc] at hr
    exact (h.carries _ (hmem c hc)).decision hr

/-- The condition, checked. -/
def challengeCurrent (s : Store) (_ : Operation) (v : AttemptView) : Request → Bool
  | .updateAttempt id u =>
    u.challengeStatus = none || (s.attempt id).all fun a =>
      v.opened.all fun o => o.1 ≠ id || o.2.challenge.status = a.challenge.status
  | _ => true

theorem challengeCurrent_iff (s : Store) (op : Operation) (v : AttemptView) (r : Request)
    (h : challengeCurrent s op v r = true) : ChallengeCurrent s op v r := by
  rintro id u a b rfl hu ha hb
  simpa [challengeCurrent, ha, hb, hu] using h

/-- An attempt that was submitted. -/
def closedAttempt : Attempt := { openAttempt with status := .submitted, submittedAt := some .zero }

/-- A raise, a resolve, and a raise that comes too late. -/
theorem challenge_settled_once_three :
    ∃ (s : AttemptConfig) (a : Attempt), s.calls.length = 3 ∧
      s.calls.countP (returnedRaise "attempt") ≤ 1 ∧
      s.calls.countP (returnedResolve "attempt") ≤ 1 ∧
      s.store.attempt "attempt" = some a ∧
      ∀ c ∈ s.calls, returnedResolve "attempt" c = true →
        c.op.decision = some a.challenge.status := by
  let T := attemptSystem fun st => st.attempt "attempt" = some closedAttempt
  have hrun : (T.runWhen (Service.checked challengeCurrent) (started closedAttempt)
      [.start (.raiseChallenge "attempt" (some "lost power") alice), next 0, next 0, next 0, next 0,
        .start (.resolveChallenge "attempt" "Accepted" none teacher), next 1, next 1, next 1,
        next 1, .start (.raiseChallenge "attempt" none alice), next 2]).map
          (fun s => s.calls.length) = some 3 := by decide +kernel
  obtain ⟨s, hs, hlength⟩ := Option.map_eq_some_iff.mp hrun
  have hcheck : ∀ (s : AttemptConfig) (act : Service.Action Operation Choice),
      Service.checked challengeCurrent s act = true → Service.When ChallengeCurrent s act :=
    fun s act => Service.When.of_checked challengeCurrent_iff
  have hinit : T.ReachableVia (Service.When ChallengeCurrent) (started closedAttempt) :=
    .init ⟨rfl, rfl⟩
  obtain ⟨hraise, hresolve, a, ha, -, hdecision⟩ :=
    challenge_settled_once (hinit.trans (TransitionSystem.runVia_of_runWhen hcheck hs))
  exact ⟨s, a, hlength, hraise, hresolve, ha, hdecision⟩

/-- Two raises that overlap both return. -/
theorem challenge_settled_once_fails :
    ∃ s : AttemptConfig,
      (attemptSystem fun st => st.attempt "attempt" = some closedAttempt).Reachable s ∧
      s.calls.countP (returnedRaise "attempt") = 2 := by
  let T := attemptSystem fun st => st.attempt "attempt" = some closedAttempt
  have hrun : (T.run (started closedAttempt)
      [.start (.raiseChallenge "attempt" (some "lost power") alice), next 0,
        .start (.raiseChallenge "attempt" (some "late start") alice), next 1,
        next 0, next 0, next 0, next 1, next 1, next 1]).map
          (fun s => s.calls.countP (returnedRaise "attempt")) = some 2 := by decide +kernel
  obtain ⟨s, hs, hcount⟩ := Option.map_eq_some_iff.mp hrun
  have hinit : T.Reachable (started closedAttempt) := .init ⟨rfl, rfl⟩
  exact ⟨s, hinit.run hs, hcount⟩

end Api
