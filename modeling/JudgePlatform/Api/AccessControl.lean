/-
# Access to attempts

Who may change an attempt and whom it is shown to, when calls of students and of staff of any
colleges run side by side.  A call knows whose an attempt is from the time it looked it up; it
may rely on that later because the owner and the college of an attempt never change.

* `attempts_confined` : what a set of calls cannot change.
* `answers_allowed` : what an answer shows.
-/
import JudgePlatform.Api.AccessRules

namespace Proctoring

open Api (ObjectId Date User Role Attempt AttemptUpdate ServiceError collegeScopeFor inScope)

/-! ## Confinement -/

section Confinement

variable {op : Operation} {v : View} {st st₀ : Store} {id : ObjectId} {a a₀ : Attempt}
  {s : Config}

theorem SeenOwn.owns (h : SeenOwn op v id) (hv : Known v st) (ha : st.base.attempt id = some a) :
    op.Owns a := by
  obtain ⟨scope, f, uid, hcaller, hstudent, hmem⟩ := h
  obtain ⟨-, howner, d, hd, hsame⟩ := hv _ hmem
  rw [ha] at hd
  cases hd
  apply hsame.owns_iff.mp
  rw [howner uid hstudent] at hcaller
  exact hcaller

theorem SeenInScope.scopes (h : SeenInScope op v id) (hv : Known v st)
    (ha : st.base.attempt id = some a) : op.Scopes a := by
  obtain ⟨user, f, huser, hmem⟩ := h
  obtain ⟨hscope, -, d, hd, hsame⟩ := hv _ hmem
  rw [ha] at hd
  cases hd
  exact hsame.scopes_iff.mp ⟨user, huser, hscope⟩

theorem Cleared.mayOpen (h : Cleared op v id) (hv : Known v st)
    (ha : st.base.attempt id = some a) : op.MayOpen a :=
  h.imp (fun hown => hown.owns hv ha) fun hscope => ⟨hscope.1.scopes hv ha, hscope.2⟩

theorem monitors_update (st : Store) (i id : ObjectId) (f : Monitor → Monitor) :
    (st.update i f).2.monitors id = st.monitors id ∨
      i = id ∧ (st.update i f).2.monitors id = f (st.monitors id) := by
  unfold Store.update
  split
  · by_cases hi : id = i
    · subst hi
      exact .inr ⟨rfl, Function.update_self _ _ _⟩
    · exact .inl (Function.update_of_ne hi _ _)
  · exact .inl rfl

theorem Cleared.exists_attempt (h : Cleared op v id) (hv : Known v st) :
    ∃ a, st.base.attempt id = some a := by
  obtain ⟨scope, f, uid, -, -, hmem⟩ | ⟨⟨user, f, -, hmem⟩, -⟩ := h
  · obtain ⟨-, -, d, hd, -⟩ := hv _ hmem
    exact ⟨d, hd⟩
  · obtain ⟨-, -, d, hd, -⟩ := hv _ hmem
    exact ⟨d, hd⟩

/-- What serving a request does to the proctoring fields of an attempt. -/
theorem monitors_serve (c : Api.Choice) (st : Store) (r : Request) (id : ObjectId) :
    (serve c st r).2.monitors id = st.monitors id ∨
      (∃ e t, r = .pushEvent id e t ∧
        (serve c st r).2.monitors id = ((st.monitors id).push e t).inc e) ∨
      ∃ drafts, r = .setDrafts id drafts ∧
        (serve c st r).2.monitors id = (st.monitors id).setDrafts drafts := by
  have hcarry : ∀ {α : Type} (done : α × Store), done.2.monitors id = st.monitors id →
      (carryOut c st done).2.monitors id = st.monitors id := by
    intro α done hdone
    rcases carryOut_cases c st done with h | h
    · rw [h]
    · rw [h]
      exact hdone
  cases r with
  | base r => exact .inl rfl
  | findWatched i scope => exact .inl (hcarry _ rfl)
  | listWatched i scope skip limit => exact .inl (hcarry _ rfl)
  | pushEvent i e t =>
    rcases carryOut_cases c st (st.update i fun m => (m.push e t).inc e) with h | h
    · exact .inl (congrArg (fun x => x.2.monitors id) h)
    · have hserve : (serve c st (.pushEvent i e t)).2.monitors id = _ :=
        congrArg (fun x => x.2.monitors id) h
      rcases monitors_update st i id fun m => (m.push e t).inc e with hsame | ⟨rfl, hnew⟩
      · exact .inl (hserve.trans hsame)
      · exact .inr (.inl ⟨e, t, rfl, hserve.trans hnew⟩)
  | setDrafts i drafts =>
    rcases carryOut_cases c st (st.update i fun m => m.setDrafts drafts) with h | h
    · exact .inl (congrArg (fun x => x.2.monitors id) h)
    · have hserve : (serve c st (.setDrafts i drafts)).2.monitors id = _ :=
        congrArg (fun x => x.2.monitors id) h
      rcases monitors_update st i id fun m => m.setDrafts drafts with hsame | ⟨rfl, hnew⟩
      · exact .inl (hserve.trans hsame)
      · exact .inr (.inr ⟨drafts, rfl, hserve.trans hnew⟩)
  | setLocked i scope locked =>
    refine .inl (hcarry _ ?_)
    unfold Store.setLocked
    split
    · rfl
    · rfl
  | findSubmissionsOf i skip limit => exact .inl (hcarry _ rfl)

/-- What housekeeping may make of an attempt. -/
def Housekept (a₀ a : Attempt) : Prop :=
  ∃ status submittedAt score, a = { a₀ with status, submittedAt, score }

theorem Housekept.refl (a : Attempt) : Housekept a a := ⟨_, _, _, rfl⟩

theorem Housekept.apply {u : AttemptUpdate} (h : Housekept a₀ a) (hu : Housekeeping u) :
    Housekept a₀ (u.apply a) := by
  obtain ⟨status, submittedAt, score, rfl⟩ := h
  obtain ⟨total, rfl⟩ | ⟨t, rfl⟩ := hu
  · refine ⟨status, submittedAt, total, ?_⟩
    show Attempt.mk _ _ _ _ _ _ _ _ _ _ _ (a₀.timeline ++ []) = _
    rw [List.append_nil]
    rfl
  · refine ⟨.timedOut, some t, score, ?_⟩
    show Attempt.mk _ _ _ _ _ _ _ _ _ _ _ (a₀.timeline ++ []) = _
    rw [List.append_nil]
    rfl

theorem Housekept.sameOwner (h : Housekept a₀ a) : SameOwner a a₀ := by
  obtain ⟨status, submittedAt, score, rfl⟩ := h
  exact ⟨rfl, rfl⟩

/-- What a permitted request does to an attempt that is not the caller's to open. -/
theorem spared_step {r : Request} (hP : Asks op v r) (hv : Known v st)
    (ha : st.base.attempt id = some a) (hop : ¬op.MayOpen a) (c : Api.Choice) :
    (serve c st r).2.monitors id = st.monitors id ∧
      ((serve c st r).2.base.attempt id = some a ∨ op.Scopes a ∧
        ∃ u, Housekeeping u ∧ (serve c st r).2.base.attempt id = some (u.apply a)) := by
  constructor
  · rcases monitors_serve c st r id with h | ⟨e, t, rfl, -⟩ | ⟨drafts, rfl, -⟩
    · exact h
    · exact absurd (.inl (hP.1.owns hv ha)) hop
    · exact absurd (hP.1.mayOpen hv ha) hop
  · rcases attempt_serve c st r id with h | ⟨u, rfl, h⟩
    · exact .inl (h.trans ha)
    · rw [ha] at h
      obtain ⟨-, hcleared | ⟨hscope, hkeeping⟩, -⟩ := hP
      · exact absurd (hcleared.mayOpen hv ha) hop
      · exact .inr ⟨hscope.scopes hv ha, u, hkeeping, h⟩

/-- **What calls cannot change.**  In every interleaving, an attempt that is neither of a caller
nor in the scope of one stays as it is; where students are among the callers whose college it is
of, its score may be counted again and its time run out, and nothing else happens to it. -/
theorem attempts_confined (hs : (system st₀).Reachable s) (h₀ : st₀.base.attempt id = some a₀) :
    ((∀ op ∈ s.ops, ¬op.Owns a₀ ∧ ¬op.Scopes a₀) →
      s.store.base.attempt id = some a₀ ∧ s.store.monitors id = st₀.monitors id) ∧
    ((∀ op ∈ s.ops, ¬op.MayOpen a₀) → ∃ a, s.store.base.attempt id = some a ∧
      Housekept a₀ a ∧ s.store.monitors id = st₀.monitors id) := by
  constructor
  · apply Service.reachable_spared program_obeys lasting
      (K := fun st => st.base.attempt id = some a₀ ∧ st.monitors id = st₀.monitors id) ?_ ?_ hs
    · rintro st rfl
      exact ⟨h₀, rfl⟩
    · rintro c st op v r ⟨hown, hscope⟩ hP hv ⟨ha, hmonitor⟩
      have hop : ¬op.MayOpen a₀ := fun h => h.elim hown fun h => hscope h.1
      obtain ⟨hkept, hattempt⟩ := spared_step hP hv ha hop c
      exact ⟨hattempt.resolve_right fun h => hscope h.1, hkept.trans hmonitor⟩
  · apply Service.reachable_spared program_obeys lasting
      (K := fun st => ∃ a, st.base.attempt id = some a ∧ Housekept a₀ a ∧
        st.monitors id = st₀.monitors id) ?_ ?_ hs
    · rintro st rfl
      exact ⟨a₀, h₀, .refl a₀, rfl⟩
    · rintro c st op v r hop hP hv ⟨a, ha, hkept, hmonitor⟩
      have hopen : ¬op.MayOpen a := fun h => hop (hkept.sameOwner.mayOpen_iff.mp h)
      obtain ⟨hmonitors, hattempt⟩ := spared_step hP hv ha hopen c
      rcases hattempt with hattempt | ⟨-, u, hu, hattempt⟩
      · exact ⟨a, hattempt, hkept, hmonitors.trans hmonitor⟩
      · exact ⟨_, hattempt, hkept.apply hu, hmonitors.trans hmonitor⟩

/-! ## What answers show -/

/-- A response that shows only what the operation may open. -/
def Allowed (op : Operation) (st : Store) : Response → Prop
  | .attempt (.attempt (some a)) => op.MayOpen a
  | .attempt (.details (some d)) => op.MayOpen d.attempt.doc
  | .watched (some w) => op.MayOpen w.doc
  | .attempts as => ∀ w ∈ as, op.MayOpen w.found.doc
  | .submissions ds => ∃ id a, st.base.attempt id = some a ∧ op.MayOpen a ∧
    ∀ d ∈ ds, d.attemptId = some id
  | _ => True

/-- What was shown is still the same one's. -/
theorem Showed.sameOwner (h : Showed v id a) (hv : Known v st) :
    ∃ d, st.base.attempt id = some d ∧ SameOwner a d := by
  obtain ⟨scope, f, hmem, rfl⟩ | hmem := h
  · exact (hv _ hmem).2.2
  · exact hv _ hmem

theorem Showed.mayOpen (h : Showed v id a) (hcleared : Cleared op v id) (hv : Known v st) :
    op.MayOpen a := by
  obtain ⟨d, hd, hsame⟩ := h.sameOwner hv
  exact hsame.mayOpen_iff.mpr (hcleared.mayOpen hv hd)

/-- **What answers show**: in every interleaving, a call that returns shows attempts and
submissions that its user may open: the user's own, and for staff those of their college. -/
theorem answers_allowed (hs : (system st₀).Reachable s)
    {c : Service.Call Operation View Reply ServiceError Response} (hc : c ∈ s.calls)
    {response : Response} (hdone : c.rest = .done response) :
    Allowed c.op s.store response := by
  have hobeys := Service.reachable_callsObey program_obeys hs c hc
  have hv : Known c.view s.store := Service.reachable_known program_obeys lasting hs c hc
  rw [hdone] at hobeys
  have hshows : Shows c.op c.view response := hobeys response rfl
  cases response with
  | attempt x =>
    cases x with
    | attempt a =>
      cases a with
      | none => exact trivial
      | some a =>
        obtain ⟨id, hshowed, hcleared⟩ := hshows
        exact hshowed.mayOpen hcleared hv
    | details d =>
      cases d with
      | none => exact trivial
      | some d =>
        obtain ⟨id, hshowed, hcleared⟩ := hshows
        exact hshowed.mayOpen hcleared hv
    | submission d => exact trivial
    | done => exact trivial
  | watched w =>
    cases w with
    | none => exact trivial
    | some w =>
      obtain ⟨id, hshowed, hcleared⟩ := hshows
      exact hshowed.mayOpen hcleared hv
  | assessment a => exact trivial
  | attempts as =>
    obtain ⟨user, huser, hrole, hmem⟩ := hshows
    exact fun w hw => .inr ⟨⟨user, huser, hv _ hmem w hw⟩, user, huser, hrole⟩
  | submissions ds =>
    obtain ⟨id, hmem, hcleared⟩ := hshows
    have hsubmissions : ∀ d ∈ ds, d.attemptId = some id := hv _ hmem
    obtain ⟨a, ha⟩ := hcleared.exists_attempt hv
    exact ⟨id, a, ha, hcleared.mayOpen hv ha, hsubmissions⟩

end Confinement

/-! ## A small database -/

def blankMonitor : Monitor := ⟨.obj [], 0, 0, 0, 0, []⟩

/-- One attempt, of Alice. -/
def examStore : Store := ⟨Api.examStore Api.openAttempt, fun _ => blankMonitor⟩

theorem examStore_reachable : (system examStore).Reachable ⟨examStore, []⟩ := .init ⟨rfl, rfl⟩

/-- A student of some college who wants to challenge the result of another. -/
def challenge : Operation :=
  .attempt (.raiseChallenge "attempt" none ⟨"bob", .student, some "college"⟩)

theorem attempts_confined_challenge : ∃ s : Config,
    (system examStore).run ⟨examStore, []⟩ [.start challenge, .serve 0 {}] = some s ∧
      s.store.base.attempt "attempt" = some Api.openAttempt ∧
      s.store.monitors "attempt" = blankMonitor := by
  obtain ⟨s, hrun, hops⟩ : ∃ s : Config,
      (system examStore).run ⟨examStore, []⟩ [.start challenge, .serve 0 {}] = some s ∧
        s.ops = [challenge] := ⟨_, rfl, rfl⟩
  have hs := examStore_reachable.run hrun
  refine ⟨s, hrun, (@attempts_confined examStore "attempt" Api.openAttempt s hs rfl).1 ?_⟩
  intro op hop
  rw [hops] at hop
  rw [List.mem_singleton.mp hop]
  constructor
  · intro hown
    exact absurd (Option.some.inj hown) (by decide)
  · rintro ⟨user, huser, hscope⟩
    cases huser
    exact absurd hscope (by decide)

/-- A report by the student of the attempt. -/
def report : Operation := .logAntiCheatingEvent "attempt" (.str "COPY") Api.alice

theorem answers_allowed_report : ∃ (s : Config) (w : Watched),
    (system examStore).run ⟨examStore, []⟩
      [.start report, .serve 0 {}, .serve 0 {}, .serve 0 {}] = some s ∧ report.MayOpen w.doc := by
  obtain ⟨s, w, v, hrun, hcalls⟩ : ∃ (s : Config) (w : Watched) (v : View),
      (system examStore).run ⟨examStore, []⟩
        [.start report, .serve 0 {}, .serve 0 {}, .serve 0 {}] = some s ∧
        s.calls = [⟨report, v, .done (.watched (some w))⟩] := ⟨_, _, _, rfl, rfl⟩
  have hmem : ⟨report, v, .done (.watched (some w))⟩ ∈ s.calls := by
    rw [hcalls]
    exact List.mem_singleton_self _
  exact ⟨s, w, hrun, answers_allowed (examStore_reachable.run hrun) hmem rfl⟩

end Proctoring
