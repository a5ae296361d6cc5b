/-
# Grace time

`addGraceTime` reads the grace minutes of an attempt, adds to them, and writes the
total back.  The total is that of the attempt as long as no other call has written
one between the read and the write.

* `graceMinutes_eq_total` : in every interleaving without such a write the grace
  minutes are the initial ones and those of all calls that returned, and the
  totals in the timeline are the running totals.
-/
import JudgePlatform.Api.AttemptRuns

namespace Api

/-! ## Totals -/

/-- The grace minutes after adding to them. -/
def addMinutes (g m : Number) : Number := (orZero g).add m

/-- The totals after each of the added minutes. -/
def runningTotals (g : Number) : List Number → List Number
  | [] => []
  | m :: ms => addMinutes g m :: runningTotals (addMinutes g m) ms

theorem runningTotals_append (g : Number) (ms : List Number) (m : Number) :
    runningTotals g (ms ++ [m]) =
      runningTotals g ms ++ [addMinutes (ms.foldl addMinutes g) m] := by
  induction ms generalizing g with
  | nil => rfl
  | cons m' ms ih => exact congrArg (addMinutes g m' :: ·) (ih (addMinutes g m'))

/-- The added minutes and the totals that a timeline logs. -/
def graceLog (timeline : List TimelineEvent) : List (Number × Number) :=
  timeline.filterMap fun
    | .graceTimeAdded _ added total => some (added, total)
    | _ => none

theorem graceLog_append (t t' : List TimelineEvent) :
    graceLog (t ++ t') = graceLog t ++ graceLog t' := List.filterMap_append

/-! ## Calls of `addGraceTime` -/

/-- The minutes that a call of `addGraceTime` on the attempt adds. -/
def Operation.minutes (id : ObjectId) : Operation → Option Number
  | .addGraceTime i minutes _ => if i = id then some minutes else none
  | _ => none

/-- The minutes of the calls that have returned. -/
def returnedMinutes (id : ObjectId) (s : AttemptConfig) : List Number :=
  s.calls.filterMap fun c => if c.rest.isDone then c.op.minutes id else none

/-- The minutes of a call that has made its update. -/
def entryMinutes (id : ObjectId) (c : Operation × List (ObjectId × AttemptUpdate)) :
    Option Number :=
  if c.2 = [] then none else c.1.minutes id

theorem entryMinutes_nil (id : ObjectId) (op : Operation) : entryMinutes id (op, []) = none :=
  if_pos rfl

theorem entryMinutes_append (id : ObjectId) (op : Operation)
    (ws : List (ObjectId × AttemptUpdate)) (w : ObjectId × AttemptUpdate) :
    entryMinutes id (op, ws ++ [w]) = op.minutes id :=
  if_neg (List.append_ne_nil_of_right_ne_nil _ (List.cons_ne_nil _ _))

theorem entryMinutes_of_none {id : ObjectId} {op : Operation} (h : op.minutes id = none)
    (ws : List (ObjectId × AttemptUpdate)) : entryMinutes id (op, ws) = none := by
  unfold entryMinutes
  rw [h, ite_self]

def writtenMinutes (id : ObjectId) (calls : List (Operation × List (ObjectId × AttemptUpdate))) :
    List Number :=
  calls.filterMap (entryMinutes id)

/-- No total is written that does not start from the stored grace minutes. -/
def GraceCurrent (s : Store) (_ : Operation) (v : AttemptView) (r : Request) : Prop :=
  ∀ id u a b, r = .updateAttempt id u → u.graceMinutes ≠ none → s.attempt id = some a →
    v.opened = some (id, b) → b.graceMinutes = a.graceMinutes

/-! ## What the updates do to the grace minutes -/

theorem graceLog_apply (u : AttemptUpdate) (a : Attempt) :
    graceLog (u.apply a).timeline = graceLog a.timeline ++ graceLog u.push.toList :=
  graceLog_append _ _

/-- Only `addGraceTime` writes grace minutes, and it logs the total that it writes. -/
theorem Writes.grace {v : AttemptView} {j : ObjectId} {u : AttemptUpdate} {op : Operation}
    (h : Writes v j u op) :
    (∃ minutes user b t, op = .addGraceTime j minutes user ∧ v.opened = some (j, b) ∧
      u = addGrace minutes (addMinutes b.graceMinutes minutes) t (b.status = .timedOut)) ∨
    (u.graceMinutes = none ∧ graceLog u.push.toList = [] ∧ ∀ id, op.minutes id = none) := by
  cases op with
  | addGraceTime i minutes user =>
    obtain ⟨rfl, b, t, hb, hu⟩ := h
    exact Or.inl ⟨minutes, user, b, t, rfl, hb, hu⟩
  | submitAssessment i user =>
    right
    obtain ⟨-, ⟨total, rfl⟩ | ⟨a, -, -, ⟨t, rfl⟩ | ⟨t, t', rfl⟩⟩⟩ := h
    · exact ⟨rfl, rfl, fun _ => rfl⟩
    · exact ⟨rfl, rfl, fun _ => rfl⟩
    · exact ⟨rfl, rfl, fun _ => rfl⟩
  | getAssessmentAttemptById i user =>
    right
    obtain ⟨-, ⟨total, rfl⟩ | ⟨a, -, -, t, rfl⟩⟩ := h
    · exact ⟨rfl, rfl, fun _ => rfl⟩
    · exact ⟨rfl, rfl, fun _ => rfl⟩
  | raiseChallenge i reason user =>
    right
    obtain ⟨-, a, t, t', -, -, rfl⟩ := h
    exact ⟨rfl, rfl, fun _ => rfl⟩
  | resolveChallenge i status comment user =>
    right
    obtain ⟨-, a, d, t, t', -, -, -, rfl⟩ := h
    exact ⟨rfl, rfl, fun _ => rfl⟩
  | submitSolution x =>
    right
    obtain ⟨-, ⟨t, p, title, d, rfl⟩ | ⟨a, t, -, -, rfl⟩⟩ := h
    · exact ⟨rfl, rfl, fun _ => rfl⟩
    · exact ⟨rfl, rfl, fun _ => rfl⟩
  | wait ms => exact h.elim

/-! ## The invariant -/

/-- Grace minutes and log of the stored attempt are those of the calls that have
written, from the attempt `a₀` on. -/
def GraceKept (id : ObjectId) (a₀ : Attempt) (s : AttemptConfig) : Prop :=
  ∃ a log, s.store.attempt id = some a ∧ graceLog a.timeline = graceLog a₀.timeline ++ log ∧
    (log.map Prod.fst).Perm (writtenMinutes id (made s)) ∧
    log.map Prod.snd = runningTotals a₀.graceMinutes (log.map Prod.fst) ∧
    a.graceMinutes = (log.map Prod.fst).foldl addMinutes a₀.graceMinutes

section Steps

variable {Init : Store → Prop} {s s' : AttemptConfig} {act : Service.Action Operation Choice}
  {id : ObjectId} {a₀ : Attempt}

/-- **Each step keeps the total**, when every total written starts from the stored one. -/
theorem GraceKept.step (hs : (attemptSystem Init).ReachableVia (Service.When GraceCurrent) s)
    (h : GraceKept id a₀ s) (hC : Service.When GraceCurrent s act)
    (hstep : attemptService.step s act = some s') : GraceKept id a₀ s' := by
  obtain ⟨a, log, ha, hlog, hperm, htotals, hgrace⟩ := h
  rcases step_updates hs hstep with ⟨hattempts, hmade⟩ |
    ⟨i, c, op, v, j, u, next, rfl, hi, hw, hstore, hmade⟩
  · have hwritten : writtenMinutes id (made s') = writtenMinutes id (made s) := by
      rcases hmade with hmade | ⟨op, hmade⟩
      · rw [hmade]
      · rw [hmade]
        unfold writtenMinutes
        rw [List.filterMap_append, List.filterMap_cons_none (entryMinutes_nil id op),
          List.filterMap_nil, List.append_nil]
    refine ⟨a, log, ?_, hlog, hwritten ▸ hperm, htotals, hgrace⟩
    unfold Store.attempt
    rw [hattempts]
    exact ha
  have hentry : (made s)[i]? = some (op, v.written) := by
    unfold made
    rw [List.getElem?_map, hi]
    rfl
  rcases hw.grace with ⟨minutes, user, b, t, rfl, hb, rfl⟩ | ⟨hu, hpush, hnone⟩
  · have hfresh : v.written = [] := ((reachable_obeys hs).request hi).once rfl
    rw [hfresh] at hentry hmade
    by_cases hj : j = id
    · subst hj
      have hcurrent : b.graceMinutes = a.graceMinutes :=
        hC _ v _ next hi j _ a b rfl (by simp [addGrace]) ha hb
      rw [hcurrent, hgrace] at hstore hmade
      generalize htotal : addMinutes ((log.map Prod.fst).foldl addMinutes a₀.graceMinutes) minutes =
        total at hstore hmade
      refine ⟨(addGrace minutes total t (decide (b.status = .timedOut))).apply a,
        log ++ [(minutes, total)], ?_, ?_, ?_, ?_, ?_⟩
      · rw [hstore, attempt_updateAttempt, if_pos rfl, ha]
        rfl
      · rw [graceLog_apply, hlog, List.append_assoc]
        rfl
      · rw [hmade, List.map_append]
        refine (List.perm_append_comm.trans (hperm.cons minutes)).trans (List.Perm.symm ?_)
        refine List.filterMap_set_perm hentry (entryMinutes_nil _ _) ?_
        rw [entryMinutes_append]
        exact if_pos rfl
      · rw [List.map_append, List.map_append, htotals]
        show _ ++ [total] = runningTotals _ (_ ++ [minutes])
        rw [runningTotals_append, htotal]
      · rw [List.map_append, List.foldl_append]
        exact htotal.symm
    · refine ⟨a, log, ?_, hlog, ?_, htotals, hgrace⟩
      · rw [hstore, attempt_updateAttempt, if_neg fun h => hj h.symm]
        exact ha
      · rw [hmade]
        refine hperm.trans (List.Perm.of_eq (List.filterMap_set_of_eq hentry ?_).symm)
        rw [entryMinutes_append, entryMinutes_nil]
        exact if_neg hj
  · have hwritten : writtenMinutes id (made s') = writtenMinutes id (made s) := by
      rw [hmade]
      refine List.filterMap_set_of_eq hentry ?_
      rw [entryMinutes_of_none (hnone id), entryMinutes_of_none (hnone id)]
    by_cases hj : id = j
    · refine ⟨u.apply a, log, ?_, ?_, hwritten ▸ hperm, htotals, ?_⟩
      · rw [hstore, attempt_updateAttempt, if_pos hj, ha]
        rfl
      · rw [graceLog_apply, hpush, List.append_nil]
        exact hlog
      · show u.graceMinutes.getD a.graceMinutes = _
        rw [hu]
        exact hgrace
    · refine ⟨a, log, ?_, hlog, hwritten ▸ hperm, htotals, hgrace⟩
      rw [hstore, attempt_updateAttempt, if_neg hj]
      exact ha

end Steps

/-! ## Calls that returned -/

theorem Operation.updatesOnce_of_minutes {id : ObjectId} {op : Operation} {m : Number}
    (h : op.minutes id = some m) : op.updatesOnce = true := by
  cases op with
  | addGraceTime i minutes user => rfl
  | _ => cases h

/-- The calls that have made their update are those that have returned. -/
theorem returnedMinutes_eq {Init : Store → Prop}
    {C : AttemptConfig → Service.Action Operation Choice → Prop} {s : AttemptConfig}
    (hs : (attemptSystem Init).ReachableVia C s) (id : ObjectId) :
    returnedMinutes id s = writtenMinutes id (made s) := by
  unfold returnedMinutes writtenMinutes made
  rw [List.filterMap_map]
  refine List.filterMap_congr fun c hc => ?_
  show _ = entryMinutes id (c.op, c.view.written)
  unfold entryMinutes
  cases hm : c.op.minutes id with
  | none =>
    rw [ite_self, ite_self]
  | some m =>
    have hdone := isDone_iff hs hc (Operation.updatesOnce_of_minutes hm)
    by_cases hwritten : c.view.written = []
    · rw [if_pos hwritten, if_neg fun h => hdone.mp h hwritten]
    · rw [if_neg hwritten, if_pos (hdone.mpr hwritten)]

/-- **No grace time is lost**, as long as no total is written that does not start
from the stored one. -/
theorem graceMinutes_eq_total {id : ObjectId} {a₀ : Attempt} {s : AttemptConfig}
    (hs : (attemptSystem fun st => st.attempt id = some a₀).ReachableVia
      (Service.When GraceCurrent) s) :
    ∃ a log, s.store.attempt id = some a ∧ graceLog a.timeline = graceLog a₀.timeline ++ log ∧
      (log.map Prod.fst).Perm (returnedMinutes id s) ∧
      log.map Prod.snd = runningTotals a₀.graceMinutes (log.map Prod.fst) ∧
      a.graceMinutes = (log.map Prod.fst).foldl addMinutes a₀.graceMinutes := by
  rw [returnedMinutes_eq hs]
  suffices h : GraceKept id a₀ s from h
  induction hs with
  | init h =>
    refine ⟨a₀, [], h.1, (List.append_nil _).symm, ?_, rfl, rfl⟩
    unfold made
    rw [h.2]
    exact List.Perm.nil
  | step hs hC hstep ih => exact ih.step hs hC hstep

/-- The condition, checked. -/
def graceCurrent (s : Store) (_ : Operation) (v : AttemptView) : Request → Bool
  | .updateAttempt id u =>
    u.graceMinutes = none || (s.attempt id).all fun a =>
      v.opened.all fun o => o.1 ≠ id || o.2.graceMinutes = a.graceMinutes
  | _ => true

theorem graceCurrent_iff (s : Store) (op : Operation) (v : AttemptView) (r : Request)
    (h : graceCurrent s op v r = true) : GraceCurrent s op v r := by
  rintro id u a b rfl hu ha hb
  simpa [graceCurrent, ha, hb, hu] using h

/-- Two calls one after the other. -/
theorem graceMinutes_eq_total_two :
    ∃ (s : AttemptConfig) (a : Attempt) (log : List (Number × Number)),
      s.store.attempt "attempt" = some a ∧
      (log.map Prod.fst).Perm (returnedMinutes "attempt" s) ∧
      returnedMinutes "attempt" s = [.ofInt 10, .ofInt 5] ∧
      log.map Prod.snd = runningTotals .zero (log.map Prod.fst) ∧
      a.graceMinutes = (log.map Prod.fst).foldl addMinutes .zero := by
  let T := attemptSystem fun st => st.attempt "attempt" = some openAttempt
  have hrun : (T.runWhen (Service.checked graceCurrent) (started openAttempt)
      [.start (.addGraceTime "attempt" (.ofInt 10) teacher), next 0, next 0, next 0,
        .start (.addGraceTime "attempt" (.ofInt 5) teacher), next 1, next 1, next 1]).map
          (returnedMinutes "attempt") = some [.ofInt 10, .ofInt 5] := by decide +kernel
  obtain ⟨s, hs, hreturned⟩ := Option.map_eq_some_iff.mp hrun
  have hcheck : ∀ (s : AttemptConfig) (act : Service.Action Operation Choice),
      Service.checked graceCurrent s act = true → Service.When GraceCurrent s act :=
    fun s act => Service.When.of_checked graceCurrent_iff
  have hinit : T.ReachableVia (Service.When GraceCurrent) (started openAttempt) :=
    .init ⟨rfl, rfl⟩
  obtain ⟨a, log, ha, -, hperm, htotals, hgrace⟩ :=
    graceMinutes_eq_total (hinit.trans (TransitionSystem.runVia_of_runWhen hcheck hs))
  exact ⟨s, a, log, ha, hperm, hreturned, htotals, hgrace⟩

/-- Of two calls that overlap, the later write loses the minutes of the earlier. -/
theorem graceMinutes_eq_total_fails :
    ∃ s : AttemptConfig,
      (attemptSystem fun st => st.attempt "attempt" = some openAttempt).Reachable s ∧
      returnedMinutes "attempt" s = [.ofInt 10, .ofInt 5] ∧
      (returnedMinutes "attempt" s).foldl addMinutes .zero = .ofInt 15 ∧
      (s.store.attempt "attempt").map Attempt.graceMinutes = some (.ofInt 5) ∧
      (s.store.attempt "attempt").map (fun a => graceLog a.timeline) =
        some [(.ofInt 10, .ofInt 10), (.ofInt 5, .ofInt 5)] := by
  let T := attemptSystem fun st => st.attempt "attempt" = some openAttempt
  have hrun : (T.run (started openAttempt)
      [.start (.addGraceTime "attempt" (.ofInt 10) teacher), next 0, next 0,
        .start (.addGraceTime "attempt" (.ofInt 5) teacher), next 1, next 1, next 0, next 1]).map
          (fun s => (returnedMinutes "attempt" s,
            (s.store.attempt "attempt").map Attempt.graceMinutes,
            (s.store.attempt "attempt").map fun a => graceLog a.timeline)) =
      some ([.ofInt 10, .ofInt 5], some (.ofInt 5),
        some [(.ofInt 10, .ofInt 10), (.ofInt 5, .ofInt 5)]) := by decide +kernel
  obtain ⟨s, hs, heq⟩ := Option.map_eq_some_iff.mp hrun
  rw [Prod.mk.injEq, Prod.mk.injEq] at heq
  have hinit : T.Reachable (started openAttempt) := .init ⟨rfl, rfl⟩
  refine ⟨s, hinit.run hs, heq.1, ?_, heq.2.1, heq.2.2⟩
  rw [heq.1]
  decide +kernel

end Api
