/-
# The audit trail of an attempt

The timeline of an attempt records what was done to it, and its counters how often the student
left the page, copied or pasted.  Each event is pushed by an update of its own, whatever else
the calls that run side by side write in between.

* `Continues` : what calls make of an attempt and of its trail.
* `audit_trail` : in every interleaving the trail is only added to, by those who may.
-/
import JudgePlatform.Api.AccessControl

namespace Proctoring

open Api (ObjectId Date User Attempt AttemptUpdate TimelineEvent)

/-- The counter of an event; a return has none. -/
def Monitor.count (m : Monitor) : EventType → ℕ
  | .tabSwitch => m.tabSwitchCount
  | .copy => m.copyCount
  | .paste => m.pasteCount
  | .fullscreenExit => m.fullscreenExitCount
  | .returned => 0

theorem count_push_inc (m : Monitor) (e : EventType) (t : Date) {k : EventType}
    (hk : k ≠ .returned) :
    ((m.push e t).inc e).count k = m.count k + if e = k then 1 else 0 := by
  cases k with
  | returned => exact absurd rfl hk
  | _ => cases e <;> rfl

theorem events_push_inc (m : Monitor) (e : EventType) (t : Date) :
    ((m.push e t).inc e).events = m.events ++ [(e, t)] := by
  cases e <;> rfl

section Trail

variable (ops : List Operation) (id : ObjectId) (a₀ a : Attempt) (m₀ m : Monitor)

/-- The timeline goes on with events that were signed by operations that may open the attempt. -/
def TimelineGoesOn : Prop :=
  ∃ new, a.timeline = a₀.timeline ++ new ∧
    ∀ e ∈ new, ∃ op ∈ ops, op.attemptId = some id ∧ op.MayOpen a₀ ∧ op.Signs e

/-- The reports go on, each made by the student of the attempt, and are counted. -/
def ReportsGoOn : Prop :=
  ∃ new, m.events = m₀.events ++ new ∧
    (∀ k, k ≠ .returned → m.count k = m₀.count k + new.countP fun e => e.1 = k) ∧
    ∀ e ∈ new, ∃ eventType user, .logAntiCheatingEvent id eventType user ∈ ops ∧
      eventOf eventType = some e.1 ∧ user.id = a₀.studentId

/-- **What calls make of an attempt**: its origin stays, and its trail goes on. -/
structure Continues : Prop where
  sameOwner : SameOwner a a₀
  assessmentId : a.assessmentId = a₀.assessmentId
  startedAt : a.startedAt = a₀.startedAt
  problemOrder : a.problemOrder = a₀.problemOrder
  timeline : TimelineGoesOn ops id a₀ a
  reports : ReportsGoOn ops id a₀ m₀ m

end Trail

section Steps

variable {ops ops' : List Operation} {id : ObjectId} {a₀ a : Attempt} {m₀ m : Monitor}

theorem TimelineGoesOn.mono (h : TimelineGoesOn ops id a₀ a) (hops : ops ⊆ ops') :
    TimelineGoesOn ops' id a₀ a := by
  obtain ⟨new, hnew, hsigned⟩ := h
  refine ⟨new, hnew, fun e he => ?_⟩
  obtain ⟨op, hop, hrest⟩ := hsigned e he
  exact ⟨op, hops hop, hrest⟩

theorem ReportsGoOn.mono (h : ReportsGoOn ops id a₀ m₀ m) (hops : ops ⊆ ops') :
    ReportsGoOn ops' id a₀ m₀ m := by
  obtain ⟨new, hnew, hcount, hreports⟩ := h
  refine ⟨new, hnew, hcount, fun e he => ?_⟩
  obtain ⟨eventType, user, hop, hrest⟩ := hreports e he
  exact ⟨eventType, user, hops hop, hrest⟩

theorem Continues.mono (h : Continues ops id a₀ a m₀ m) (hops : ops ⊆ ops') :
    Continues ops' id a₀ a m₀ m :=
  { h with timeline := h.timeline.mono hops, reports := h.reports.mono hops }

theorem Continues.refl (a : Attempt) (m : Monitor) : Continues ops id a a m m where
  sameOwner := .refl a
  assessmentId := rfl
  startedAt := rfl
  problemOrder := rfl
  timeline := ⟨[], (List.append_nil _).symm, fun _ he => absurd he List.not_mem_nil⟩
  reports := ⟨[], (List.append_nil _).symm, fun _ _ => rfl,
    fun _ he => absurd he List.not_mem_nil⟩

/-- An update adds at most the event that its operation signs. -/
theorem Continues.apply {op : Operation} {v : View} {u : AttemptUpdate}
    (h : Continues ops id a₀ a m₀ m) (hop : op ∈ ops) (hP : Permits op v id u)
    (hopen : Cleared op v id → op.MayOpen a) : Continues ops id a₀ (u.apply a) m₀ m := by
  refine { h with sameOwner := (sameOwner_apply u a).symm.trans h.sameOwner, timeline := ?_ }
  obtain ⟨new, hnew, hsigned⟩ := h.timeline
  refine ⟨new ++ u.push.toList, ?_, fun e he => ?_⟩
  · show a.timeline ++ u.push.toList = _
    rw [hnew, List.append_assoc]
  · rcases List.mem_append.mp he with he | he
    · exact hsigned e he
    · have hpush : u.push = some e := Option.mem_toList.mp he
      have hcleared : Cleared op v id := by
        refine hP.cleared.resolve_right fun hkeeping => ?_
        obtain ⟨-, ⟨total, rfl⟩ | ⟨t, rfl⟩⟩ := hkeeping
        · cases hpush
        · cases hpush
      exact ⟨op, hop, hP.about, h.sameOwner.mayOpen_iff.mp (hopen hcleared), hP.signed e hpush⟩

/-- A report is counted as it is pushed. -/
theorem Continues.push {eventType : JsValue} {user : User} {e : EventType} {t : Date}
    (h : Continues ops id a₀ a m₀ m) (hop : .logAntiCheatingEvent id eventType user ∈ ops)
    (he : eventOf eventType = some e) (howner : user.id = a₀.studentId) :
    Continues ops id a₀ a m₀ ((m.push e t).inc e) := by
  refine { h with reports := ?_ }
  obtain ⟨new, hnew, hcount, hreports⟩ := h.reports
  refine ⟨new ++ [(e, t)], ?_, fun k hk => ?_, fun e' he' => ?_⟩
  · rw [events_push_inc, hnew, List.append_assoc]
  · rw [count_push_inc m e t hk, hcount k hk, List.countP_append, List.countP_singleton]
    simp [Nat.add_assoc]
  · rcases List.mem_append.mp he' with he' | he'
    · exact hreports e' he'
    · rw [List.mem_singleton.mp he']
      exact ⟨eventType, user, hop, he, howner⟩

theorem Continues.setDrafts (h : Continues ops id a₀ a m₀ m) (drafts : Option JsValue) :
    Continues ops id a₀ a m₀ (m.setDrafts drafts) := by
  refine { h with reports := ?_ }
  obtain ⟨new, hnew, hcount, hreports⟩ := h.reports
  refine ⟨new, hnew, fun k hk => ?_, hreports⟩
  rw [← hcount k hk]
  cases k <;> rfl

end Steps

section Runs

variable {st₀ : Store} {s : Config} {id : ObjectId} {a₀ : Attempt}

/-- **The audit trail.**  In every interleaving, an attempt keeps its student, its assessment,
its start and its order of problems; its timeline is only added to, each event by an operation
of its student or of the staff of its college; and its counters count the reports that were
added, each of them made by its student. -/
theorem audit_trail (hs : (system st₀).Reachable s) (h₀ : st₀.base.attempt id = some a₀) :
    ∃ a, s.store.base.attempt id = some a ∧
      Continues s.ops id a₀ a (st₀.monitors id) (s.store.monitors id) := by
  apply Service.reachable_recorded program_obeys lasting
    (K := fun ops st => ∃ a, st.base.attempt id = some a ∧
      Continues ops id a₀ a (st₀.monitors id) (st.monitors id)) ?_ ?_ ?_ hs
  · rintro st rfl
    exact ⟨a₀, h₀, .refl a₀ _⟩
  · rintro ops ops' st hops ⟨a, ha, hcontinues⟩
    exact ⟨a, ha, hcontinues.mono hops⟩
  · rintro c st op v r ops hop hP hv ⟨a, ha, hcontinues⟩
    have hattempt : ∃ a', (serve c st r).2.base.attempt id = some a' ∧
        Continues ops id a₀ a' (st₀.monitors id) (st.monitors id) := by
      rcases attempt_serve c st r id with h | ⟨u, rfl, h⟩
      · exact ⟨a, h.trans ha, hcontinues⟩
      · rw [ha] at h
        exact ⟨_, h, hcontinues.apply hop hP fun hcleared => hcleared.mayOpen hv ha⟩
    obtain ⟨a', ha', hcontinues'⟩ := hattempt
    refine ⟨a', ha', ?_⟩
    show Continues ops id a₀ a' (st₀.monitors id) ((serve c st r).2.monitors id)
    rcases monitors_serve c st r id with h | ⟨e, t, rfl, h⟩ | ⟨drafts, rfl, h⟩
    · rw [h]
      exact hcontinues'
    · rw [h]
      obtain ⟨hown, eventType, user, rfl, he⟩ := hP
      have howner : user.id = a.studentId := Option.some.inj (hown.owns hv ha)
      exact hcontinues'.push hop he (howner.trans hcontinues.sameOwner.studentId)
    · rw [h]
      exact hcontinues'.setDrafts drafts

theorem audit_trail_report : ∃ (s : Config) (a : Attempt),
    (system examStore).run ⟨examStore, []⟩
      [.start report, .serve 0 {}, .serve 0 {}, .serve 0 {}] = some s ∧
      s.store.base.attempt "attempt" = some a ∧
      Continues s.ops "attempt" Api.openAttempt a blankMonitor (s.store.monitors "attempt") := by
  obtain ⟨s, hrun⟩ : ∃ s : Config, (system examStore).run ⟨examStore, []⟩
      [.start report, .serve 0 {}, .serve 0 {}, .serve 0 {}] = some s := ⟨_, rfl⟩
  obtain ⟨a, ha, hcontinues⟩ := @audit_trail examStore s "attempt" Api.openAttempt
    (examStore_reachable.run hrun) rfl
  exact ⟨s, a, hrun, ha, hcontinues⟩

end Runs

end Proctoring
