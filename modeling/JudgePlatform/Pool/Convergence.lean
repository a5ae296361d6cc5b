/-
# `convergeLang` on its own

One call of `convergeLang` while every other routine rests and Docker creates
what it is asked for.  Whatever the pool was like before, and however its
containers were split between idle and in use, the call returns and leaves
`max target inUse` containers of the language: it fills the channel up to the
target, or empties it as far as the target and the idle containers allow.

* `Adjusted lang taken made p q` says how the two loops change a pool: the first
  `taken` idle containers of the language are removed, the containers `made` wait
  behind the others.
* The creation loop is followed by `create_inevitably`, the removal loop by
  `take_inevitably`; both go by induction on the number of turns left.
-/
import JudgePlatform.Pool.Population

namespace Pool

open ContainerPool

/-! ## Steps of one routine -/

/-- A step of routine `i` at which Docker does not fail to create a container. -/
def Alone (i : ℕ) (_ : PoolState) (act : PoolAction) : Prop :=
  ∃ a, act = .go i a ∧ a ≠ .createFailed

/-- The one-step rule for a routine that acts alone. -/
theorem inevitably_advance {Q : PoolState → Prop} {s : PoolState} {i : ℕ} {r : Routine}
    (hi : s.routines[i]? = some r)
    (hgo : ∃ a p' r', a ≠ .createFailed ∧ r.advance s.pool a = some (p', r'))
    (hall : ∀ a p' r', a ≠ .createFailed → r.advance s.pool a = some (p', r') →
      system.Inevitably (Alone i) Q ⟨p', s.routines.set i r'⟩) :
    system.Inevitably (Alone i) Q s := by
  apply TransitionSystem.Inevitably.later
  · obtain ⟨a, p', r', ha, hadv⟩ := hgo
    refine ⟨.go i a, ⟨p', s.routines.set i r'⟩, ⟨a, rfl, ha⟩, ?_⟩
    show PoolState.step s (.go i a) = _
    simp only [PoolState.step, hi, hadv]
  · rintro act s' ⟨a, rfl, ha⟩ hstep
    have hgoes : PoolState.step s (.go i a) = some s' := hstep
    simp only [PoolState.step, hi] at hgoes
    rcases hadv : r.advance s.pool a with _ | ⟨p', r'⟩
    · rw [hadv] at hgoes
      cases hgoes
    · rw [hadv] at hgoes
      obtain rfl := Option.some.inj hgoes
      exact hall a p' r' ha hadv

/-- The one-step rule for a step that takes no answer. -/
theorem inevitably_ok {Q : PoolState → Prop} {s : PoolState} {i : ℕ} {r r' : Routine}
    {p' : ContainerPool} (hi : s.routines[i]? = some r)
    (hadv : r.advance s.pool .ok = some (p', r'))
    (honly : ∀ a, a ≠ .ok → r.advance s.pool a = none)
    (h : system.Inevitably (Alone i) Q ⟨p', s.routines.set i r'⟩) :
    system.Inevitably (Alone i) Q s := by
  apply inevitably_advance hi ⟨.ok, p', r', by simp, hadv⟩
  intro a p₁ r₁ _ hstep
  by_cases ha : a = .ok
  · subst ha
    obtain ⟨rfl, rfl⟩ := Prod.mk.inj (Option.some.inj (hadv.symm.trans hstep))
    exact h
  · rw [honly a ha] at hstep
    cases hstep

theorem get_set_routine {s : PoolState} {i : ℕ} {r : Routine} (hi : s.routines[i]? = some r)
    (r' : Routine) : (s.routines.set i r')[i]? = some r' := by
  obtain ⟨hlt, -⟩ := List.getElem?_eq_some_iff.mp hi
  rw [List.getElem?_set_self hlt]

/-! ## How the loops change the pool -/

/-- `q` is `p` after the first `taken` idle containers of the language are
removed and the containers `made` are put behind the rest. -/
structure Adjusted (lang : String) (taken : ℕ) (made : List PooledContainer)
    (p q : ContainerPool) : Prop where
  inUse : q.inUse = p.inUse
  others : ∀ l, l ≠ lang → q.availChans l = p.availChans l
  idle : q.idle lang = (p.idle lang).drop taken ++ made
  removed : q.removed = ((p.idle lang).take taken).reverse ++ p.removed

section
variable {lang : String} {p q t : ContainerPool}

theorem Adjusted.refl (p : ContainerPool) : Adjusted lang 0 [] p p where
  inUse := rfl
  others _ _ := rfl
  idle := (List.append_nil _).symm
  removed := rfl

/-- One more container is created. -/
theorem Adjusted.create {id : String} {made : List PooledContainer} {c : PooledContainer}
    (hnew : p.newPooledContainer id = some q) (hsend : q.send lang c = some t) {u : ContainerPool}
    (h : Adjusted lang 0 made t u) : Adjusted lang 0 (c :: made) p u := by
  obtain ⟨-, rfl⟩ := newPooledContainer_eq_some hnew
  obtain ⟨ch, ch', -, rfl, -, hbuf⟩ := send_eq_some hsend
  constructor
  · exact h.inUse
  · intro l hl
    rw [h.others l hl]
    exact Function.update_of_ne hl _ _
  · rw [h.idle, idle_setChan, if_pos rfl, hbuf, List.drop_zero, List.drop_zero, List.append_assoc]
    rfl
  · exact h.removed

/-- One more idle container is removed. -/
theorem Adjusted.take {taken : ℕ} {c : PooledContainer} (hreceive : p.receive lang = some (c, q))
    (h : Adjusted lang taken [] (q.removeContainer c) t) : Adjusted lang (taken + 1) [] p t := by
  obtain ⟨ch, ch', -, rfl, -, hidle⟩ := receive_eq_some hreceive
  have hrest : ((p.setChan lang ch').removeContainer c).idle lang = ch'.buffer := by
    show (p.setChan lang ch').idle lang = _
    rw [idle_setChan, if_pos rfl]
  constructor
  · exact h.inUse
  · intro l hl
    rw [h.others l hl]
    exact Function.update_of_ne hl _ _
  · rw [h.idle, hrest, hidle, List.drop_succ_cons]
  · rw [h.removed, hrest, hidle, List.take_succ_cons, List.reverse_cons, List.append_assoc]
    rfl

/-- Nothing is left to take from an empty channel. -/
theorem Adjusted.none {taken : ℕ} (hempty : p.idle lang = []) (h : Adjusted lang taken [] p t) :
    Adjusted lang (taken + 1) [] p t := by
  refine ⟨h.inUse, h.others, ?_, ?_⟩
  · rw [h.idle, hempty, List.drop_nil, List.drop_nil]
  · rw [h.removed, hempty, List.take_nil, List.take_nil]

theorem Adjusted.current {taken : ℕ} {made : List PooledContainer}
    (h : Adjusted lang taken made p q) :
    q.current lang = p.inUseCount lang + ((p.availCount lang - taken) + made.length) := by
  unfold ContainerPool.current ContainerPool.inUseCount ContainerPool.availCount
  rw [h.inUse, h.idle, List.length_append, List.length_drop]

end

theorem receive_eq_none_iff {p : ContainerPool} {lang : String} :
    p.receive lang = none ↔ p.idle lang = [] := by
  constructor
  · intro h
    unfold receive at h
    unfold idle
    rcases hch : p.availChans lang with _ | ⟨n, buffer, hfits⟩
    · rfl
    · rw [hch] at h
      cases buffer with
      | nil => rfl
      | cons x rest => cases h
  · intro h
    by_contra hsome
    obtain ⟨⟨c, q⟩, hreceive⟩ := Option.ne_none_iff_exists'.mp hsome
    obtain ⟨ch, ch', -, -, -, hidle⟩ := receive_eq_some hreceive
    rw [h] at hidle
    cases hidle

/-! ## The two loops -/

/-- The points of `convergeLang` that wait for no answer of Docker's. -/
def Routine.isQuiet : Routine → Bool
  | .converge _ _ | .convergeCreate _ 0 _ | .convergeSend _ _ _ _ => true
  | .convergeTake _ _ _ | .convergeRemove _ _ _ _ => true
  | _ => false

theorem advance_of_ne_ok {p : ContainerPool} {r : Routine} {a : Answer} (hr : r.isQuiet = true)
    (ha : a ≠ .ok) : r.advance p a = none := by
  cases r with
  | converge lang k | convergeSend lang c left k | convergeRemove lang c left k =>
    cases a <;> first | rfl | exact absurd rfl ha
  | convergeCreate lang left k =>
    cases left with
    | zero => cases a <;> first | rfl | exact absurd rfl ha
    | succ left => cases hr
  | convergeTake lang left k =>
    cases left <;> cases a <;> first | rfl | exact absurd rfl ha
  | _ => cases hr

/-- Routine `i` has returned to its caller, and the call has adjusted the pool. -/
def Returned (i : ℕ) (k : Caller) (lang : String) (taken made : ℕ) (s s' : PoolState) : Prop :=
  s'.routines = s.routines.set i k.resume ∧
    ∃ cs, cs.length = made ∧ Adjusted lang taken cs s.pool s'.pool

/-- A loop that has no turn left returns. -/
theorem inevitably_return {s : PoolState} {i : ℕ} {k : Caller} {lang : String} {r : Routine}
    (hi : s.routines[i]? = some r) (hadv : r.advance s.pool .ok = some (s.pool, k.resume))
    (honly : ∀ a, a ≠ .ok → r.advance s.pool a = none) :
    system.Inevitably (Alone i) (Returned i k lang 0 0 s) s := by
  apply inevitably_ok hi hadv honly
  exact .now ⟨rfl, [], rfl, .refl s.pool⟩

/-- A created container finds room, and the loop goes on. -/
theorem send_inevitably {Q : PoolState → Prop} {s : PoolState} {i : ℕ} {k : Caller}
    {lang : String} {c : PooledContainer} {left : ℕ}
    (hi : s.routines[i]? = some (.convergeSend lang c left k)) (hfree : s.pool.locked = false)
    (hroom : s.pool.availCount lang < s.pool.capacity lang)
    (h : ∀ q, s.pool.send lang c = some q → q.locked = false →
      q.availCount lang = s.pool.availCount lang + 1 → q.capacity lang = s.pool.capacity lang →
      system.Inevitably (Alone i) Q ⟨q, s.routines.set i (.convergeCreate lang left k)⟩) :
    system.Inevitably (Alone i) Q s := by
  rcases hsend : s.pool.send lang c with _ | q
  · have hfull := send_eq_none_iff.mp hsend
    omega
  have hadv : Routine.advance s.pool (.convergeSend lang c left k) .ok =
      some (q, .convergeCreate lang left k) := by
    simp only [Routine.advance, hfree, hsend, Bool.false_eq_true, if_false]
  apply inevitably_ok hi hadv
  · exact fun a ha => advance_of_ne_ok rfl ha
  · have hcount := current_send hsend lang
    rw [if_pos rfl] at hcount
    obtain ⟨ch, ch', hch, rfl, hcap, -⟩ := send_eq_some hsend
    have hinUse : (s.pool.setChan lang ch').inUseCount lang = s.pool.inUseCount lang := rfl
    unfold ContainerPool.current at hcount
    exact h _ hsend hfree (by omega) (capacity_setChan hch hcap lang)

/-- **The creation loop** fills the channel by as many containers as it has turns left. -/
theorem create_inevitably (i : ℕ) (k : Caller) (lang : String) (left : ℕ) :
    ∀ s : PoolState, s.routines[i]? = some (.convergeCreate lang left k) →
      s.pool.locked = false → s.pool.availCount lang + left ≤ s.pool.capacity lang →
      system.Inevitably (Alone i) (Returned i k lang 0 left s) s := by
  induction left with
  | zero =>
    intro s hi _ _
    exact inevitably_return hi rfl fun a ha => advance_of_ne_ok rfl ha
  | succ left ih =>
    intro s hi hfree hroom
    apply inevitably_advance hi
    · -- Docker has an id it has not given before
      obtain ⟨fresh, hfresh⟩ := Infinite.exists_notMem_finset s.pool.issued.toFinset
      rw [List.mem_toFinset] at hfresh
      refine ⟨.created fresh, { s.pool with issued := fresh :: s.pool.issued },
        .convergeSend lang ⟨fresh, lang⟩ left k, by simp, ?_⟩
      simp only [Routine.advance, newPooledContainer, if_neg hfresh]
    · intro a p₁ r₁ ha hadv
      obtain ⟨id, rfl⟩ : ∃ id, a = .created id := by
        cases a with
        | created id => exact ⟨id, rfl⟩
        | createFailed => exact absurd rfl ha
        | _ => cases hadv
      simp only [Routine.advance] at hadv
      rcases hnew : s.pool.newPooledContainer id with _ | q
      · rw [hnew] at hadv
        cases hadv
      rw [hnew] at hadv
      obtain ⟨rfl, rfl⟩ := Prod.mk.inj (Option.some.inj hadv)
      obtain ⟨hfree', hroom'⟩ :
          q.locked = false ∧ q.availCount lang + (left + 1) ≤ q.capacity lang := by
        obtain ⟨-, rfl⟩ := newPooledContainer_eq_some hnew
        exact ⟨hfree, hroom⟩
      have hi₁ := get_set_routine hi (.convergeSend lang ⟨id, lang⟩ left k)
      apply send_inevitably hi₁ hfree' (show q.availCount lang < q.capacity lang by omega)
      intro t hsend hfree₂ hcount hcap
      have hroom₂ : t.availCount lang + left ≤ t.capacity lang := by
        rw [hcount, hcap]
        show q.availCount lang + 1 + left ≤ q.capacity lang
        omega
      apply (ih ⟨t, _⟩ (get_set_routine (s := ⟨q, _⟩) hi₁ _) hfree₂ hroom₂).mono
      rintro s' ⟨hroutines, cs, hcs, hadj⟩
      refine ⟨?_, ⟨id, lang⟩ :: cs, congrArg (· + 1) hcs, hadj.create hnew hsend⟩
      rw [hroutines, List.set_set, List.set_set]

/-- **The removal loop** takes an idle container at each turn, as long as there are any. -/
theorem take_inevitably (i : ℕ) (k : Caller) (lang : String) (left : ℕ) :
    ∀ s : PoolState, s.routines[i]? = some (.convergeTake lang left k) →
      system.Inevitably (Alone i) (Returned i k lang left 0 s) s := by
  induction left with
  | zero =>
    intro s hi
    exact inevitably_return hi rfl fun a ha => advance_of_ne_ok rfl ha
  | succ left ih =>
    intro s hi
    have honly : ∀ a, a ≠ .ok →
        Routine.advance s.pool (.convergeTake lang (left + 1) k) a = none :=
      fun a ha => advance_of_ne_ok rfl ha
    rcases hreceive : s.pool.receive lang with _ | ⟨c, q⟩
    · -- no more idle containers: this turn does nothing, and so do the rest
      have hadv : Routine.advance s.pool (.convergeTake lang (left + 1) k) .ok =
          some (s.pool, .convergeTake lang left k) := by
        simp only [Routine.advance, hreceive]
      apply inevitably_ok hi hadv honly
      apply (ih ⟨s.pool, _⟩ (get_set_routine hi _)).mono
      rintro s' ⟨hroutines, cs, hcs, hadj⟩
      obtain rfl := List.eq_nil_of_length_eq_zero hcs
      refine ⟨?_, [], rfl, hadj.none (receive_eq_none_iff.mp hreceive)⟩
      rw [hroutines, List.set_set]
    · have hi₁ := get_set_routine hi (.convergeRemove lang c left k)
      have hadv : Routine.advance s.pool (.convergeTake lang (left + 1) k) .ok =
          some (q, .convergeRemove lang c left k) := by
        simp only [Routine.advance, hreceive]
      apply inevitably_ok hi hadv honly
      apply inevitably_ok hi₁ rfl
      · exact fun a ha => advance_of_ne_ok rfl ha
      apply (ih ⟨q.removeContainer c, _⟩ (get_set_routine (s := ⟨q, _⟩) hi₁ _)).mono
      rintro s' ⟨hroutines, cs, hcs, hadj⟩
      obtain rfl := List.eq_nil_of_length_eq_zero hcs
      refine ⟨?_, [], rfl, hadj.take hreceive⟩
      rw [hroutines, List.set_set, List.set_set]

/-! ## The call -/

/-- What every run keeps of a pool: the channel of a language is made for `max`
containers, and no idle container is in use. -/
structure Kept (p : ContainerPool) : Prop where
  capacity : ∀ l, p.capacity l = (p.limits l).max
  apart : ∀ l, ∀ c ∈ p.idle l, p.hasInUse c.id = false

theorem reachable_kept {s : PoolState} (h : system.Reachable s) : Kept s.pool := by
  refine ⟨(reachable_bounded h).capacity, fun l c hc => ?_⟩
  have hidle : 0 < s.ledger.held (.channel l) c.id := copies_pos_of_mem hc
  have habsent := (reachable_wellKept h).exclusive.eq_zero (q := .inUse) hidle (by simp)
  by_contra hin
  rw [Bool.not_eq_false, hasInUse_iff] at hin
  exact absurd habsent hin.ne'

/-- The call of routine `i` has returned, and the language has converged. -/
structure Converged (i : ℕ) (k : Caller) (lang : String) (s s' : PoolState) : Prop where
  returned : s'.routines = s.routines.set i k.resume
  current : s'.pool.current lang = max (s.pool.targets lang) (s.pool.inUseCount lang)
  inUse : s'.pool.inUse = s.pool.inUse
  /-- only idle containers of the language have been removed -/
  removed : ∀ c ∈ s'.pool.removed, c ∈ s.pool.removed ∨
    c ∈ s.pool.idle lang ∧ s.pool.hasInUse c.id = false
  others : ∀ l, l ≠ lang → s'.pool.availChans l = s.pool.availChans l

theorem Returned.converged {i : ℕ} {k : Caller} {lang : String} {taken made : ℕ} {r : Routine}
    {s s' : PoolState} (hkept : Kept s.pool)
    (h : Returned i k lang taken made ⟨s.pool, s.routines.set i r⟩ s')
    (hcount : s.pool.inUseCount lang + ((s.pool.availCount lang - taken) + made) =
      max (s.pool.targets lang) (s.pool.inUseCount lang)) : Converged i k lang s s' := by
  obtain ⟨hroutines, cs, hcs, hadj⟩ := h
  constructor
  · rw [hroutines, List.set_set]
  · rw [hadj.current, hcs]
    exact hcount
  · exact hadj.inUse
  · intro c hc
    rw [hadj.removed, List.mem_append, List.mem_reverse] at hc
    rcases hc with hc | hc
    · have hidle := List.mem_of_mem_take hc
      exact Or.inr ⟨hidle, hkept.apart lang c hidle⟩
    · exact Or.inl hc
  · exact hadj.others

/-- **Convergence.**  A call of `convergeLang` that acts alone returns, with as
many containers of the language as its target says or as are in use, whichever
is more; it has removed idle containers of the language only, and has changed
neither the in-use map nor the channel of another language. -/
theorem converge_inevitably {s : PoolState} {i : ℕ} {lang : String} {k : Caller}
    (hkept : Kept s.pool) (hi : s.routines[i]? = some (.converge lang k))
    (hfree : s.pool.locked = false) (htarget : s.pool.targets lang ≤ (s.pool.limits lang).max) :
    system.Inevitably (Alone i) (Converged i k lang s) s := by
  have hcap := hkept.capacity lang
  have honly : ∀ a, a ≠ .ok → Routine.advance s.pool (.converge lang k) a = none :=
    fun a ha => advance_of_ne_ok rfl ha
  by_cases hless : s.pool.inUseCount lang + s.pool.availCount lang < s.pool.targets lang
  · -- a shortfall, for which the channel has room
    have hread : Routine.advance s.pool (.converge lang k) .ok =
        some (s.pool, .convergeCreate lang
          (s.pool.targets lang - (s.pool.inUseCount lang + s.pool.availCount lang)) k) := by
      simp only [Routine.advance, hfree, Bool.false_eq_true, if_false, if_pos hless]
    apply inevitably_ok hi hread honly
    apply (create_inevitably i k lang _ ⟨s.pool, _⟩ (get_set_routine hi _) hfree
      (show s.pool.availCount lang + _ ≤ s.pool.capacity lang by omega)).mono
    exact fun s' h => h.converged hkept (by omega)
  by_cases hmore : s.pool.targets lang < s.pool.inUseCount lang + s.pool.availCount lang ∧
      (s.pool.availChans lang).isSome
  · -- too many, of which the idle ones can go
    have hread : Routine.advance s.pool (.converge lang k) .ok =
        some (s.pool, .convergeTake lang
          (s.pool.inUseCount lang + s.pool.availCount lang - s.pool.targets lang) k) := by
      simp only [Routine.advance, hfree, Bool.false_eq_true, if_false, if_neg hless, gt_iff_lt,
        if_pos hmore]
    apply inevitably_ok hi hread honly
    apply (take_inevitably i k lang _ ⟨s.pool, _⟩ (get_set_routine hi _)).mono
    exact fun s' h => h.converged hkept (by omega)
  · -- the target is met, or there is no channel to take anything from
    have hread : Routine.advance s.pool (.converge lang k) .ok = some (s.pool, k.resume) := by
      simp only [Routine.advance, hfree, Bool.false_eq_true, if_false, if_neg hless, gt_iff_lt,
        if_neg hmore]
    have hidle : s.pool.targets lang < s.pool.inUseCount lang + s.pool.availCount lang →
        s.pool.availCount lang = 0 := by
      intro hover
      have hnone : s.pool.availChans lang = none := by
        by_contra hsome
        exact hmore ⟨hover, Option.isSome_iff_ne_none.mpr hsome⟩
      unfold ContainerPool.availCount ContainerPool.idle
      rw [hnone]
      rfl
    apply inevitably_ok hi hread honly
    apply TransitionSystem.Inevitably.now
    have hreturned : Returned i k lang 0 0 ⟨s.pool, s.routines.set i .done⟩
        ⟨s.pool, s.routines.set i k.resume⟩ :=
      ⟨(List.set_set ..).symm, [], rfl, .refl s.pool⟩
    apply hreturned.converged hkept
    omega

/-- A pool whose one container is in use, and whose target it meets. -/
theorem converge_inevitably_python :
    ∃ s, system.Reachable s ∧ s.pool.inUseCount "python" = 1 ∧ s.pool.targets "python" = 1 ∧
      system.Inevitably (Alone 1) (Converged 1 .other "python" s) s := by
  obtain ⟨s, hs, hi, hfree, hinUse, htarget, hmax⟩ : ∃ s, system.run ⟨pythonPool, []⟩
      [.call (.acquire "python"), .go 0 .ok, .go 0 .ok, .go 0 .ok,
        .call (.convergeLang "python")] = some s ∧
      s.routines[1]? = some (.converge "python" .other) ∧ s.pool.locked = false ∧
      s.pool.inUseCount "python" = 1 ∧ s.pool.targets "python" = 1 ∧
      (s.pool.limits "python").max = 2 := ⟨_, rfl, rfl, rfl, rfl, rfl, rfl⟩
  have hreach : system.Reachable s := .run (.init ⟨pythonPool_warmed, rfl⟩) hs
  refine ⟨s, hreach, hinUse, htarget, ?_⟩
  apply converge_inevitably (reachable_kept hreach) hi hfree
  rw [htarget, hmax]
  decide

end Pool
