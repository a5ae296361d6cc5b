/-
# Runs of the pool

What every reachable state of the pool has in common, whatever the claims about
it: the channel of a language and the routines working on a language hold
containers of that language (`Sorted`), so that every step of a run is one of
the moves (`Sorted.step_moves`).
-/
import JudgePlatform.Pool.Moves

namespace Pool

open ContainerPool

/-! ## Containers and their languages -/

/-- The channel of a language holds containers of that language only. -/
def Filed (p : ContainerPool) : Prop := ∀ l, ∀ c ∈ p.idle l, c.language = l

theorem Filed.receive {p p' : ContainerPool} {lang : String} {c : PooledContainer}
    (hp : Filed p) (h : p.receive lang = some (c, p')) : c.language = lang ∧ Filed p' := by
  obtain ⟨ch, ch', -, rfl, -, hidle⟩ := receive_eq_some h
  refine ⟨hp lang c (hidle ▸ List.mem_cons_self), fun l d hd => ?_⟩
  rw [idle_setChan] at hd
  split_ifs at hd with hl
  · subst hl
    exact hp l d (hidle ▸ List.mem_cons_of_mem c hd)
  · exact hp l d hd

theorem Filed.send {p p' : ContainerPool} {lang : String} {c : PooledContainer}
    (hp : Filed p) (hc : c.language = lang) (h : p.send lang c = some p') : Filed p' := by
  obtain ⟨ch, ch', -, rfl, -, hbuf⟩ := send_eq_some h
  intro l d hd
  rw [idle_setChan] at hd
  split_ifs at hd with hl
  · rw [hbuf, List.mem_append, List.mem_singleton] at hd
    rcases hd with hd | rfl
    · exact hl ▸ hp lang d hd
    · exact hc.trans hl.symm
  · exact hp l d hd

theorem Filed.move {p q : ContainerPool} {r r' : Routine} (hp : Filed p) (h : Move p r r' q) :
    Filed q := by
  cases h with
  | receive lang c p₁ taken => exact (hp.receive taken).2
  | send lang c p₁ put language => exact hp.send language put
  | create id lang p₁ fresh =>
    obtain ⟨-, rfl⟩ := newPooledContainer_eq_some fresh
    exact hp
  | _ => exact hp

/-- What a routine takes in hand is of the language it works on. -/
theorem Routine.Labelled.advance {p p' : ContainerPool} {r r' : Routine} {a : Answer}
    (hp : Filed p) (hr : r.Labelled) (h : r.advance p a = some (p', r')) : r'.Labelled := by
  have hnone : ∀ x : Routine, x.hands = [] → x.Labelled := by
    intro x hx l _ c hc
    rw [hx] at hc
    cases hc
  have hfree : ∀ x : Routine, x.label = none → x.Labelled := by
    intro x hx l hl
    rw [hx] at hl
    cases hl
  have hlone : ∀ (x : Routine) (lang : String) (c : PooledContainer), x.label = some lang →
      x.hands = [c] → c.language = lang → x.Labelled := by
    intro x lang c hx hc hlang l hl d hd
    rw [hx] at hl
    rw [hc, List.mem_singleton] at hd
    obtain rfl := Option.some.inj hl
    exact hd ▸ hlang
  revert h
  fun_cases Routine.advance p r a
  all_goals
    intro h
    first
      | cases h; done
      | obtain ⟨rfl, rfl⟩ := Prod.mk.inj (Option.some.inj h)
  all_goals first
    | exact hr
    | exact hnone _ rfl
    | exact hfree _ rfl
    | exact hlone _ _ _ rfl rfl rfl
    | exact hlone _ _ _ rfl rfl (hp.receive (by assumption)).1
    | (cases ‹Caller› <;> exact hnone _ rfl)

/-! ## Steps of the system -/

/-- **Inversion of a step**: a call begins, an acquirer decides to give its
container back, or a routine advances. -/
theorem PoolState.step_cases {s s' : PoolState} {act : PoolAction} (h : s.step act = some s') :
    (∃ c, act = .call c ∧ (c = .autoscale → s.routines.any Routine.isAutoscaler = false) ∧
      s' = ⟨s.pool, s.routines ++ [c.start]⟩) ∨
    (∃ i c r', s.routines[i]? = some (.acquired c) ∧
      (act = .release i ∧ r' = .release c ∨ act = .discard i ∧ r' = .discard c) ∧
      s' = ⟨s.pool, s.routines.set i r'⟩) ∨
    (∃ i a r r' p', act = .go i a ∧ s.routines[i]? = some r ∧
      r.advance s.pool a = some (p', r') ∧ s' = ⟨p', s.routines.set i r'⟩) := by
  cases act with
  | call c =>
    left
    simp only [step] at h
    split_ifs at h with hc
    refine ⟨c, rfl, fun hauto => ?_, (Option.some.inj h).symm⟩
    exact eq_false_of_ne_true fun hany => hc ⟨hauto, hany⟩
  | release i =>
    right; left
    simp only [step] at h
    split at h
    · exact ⟨i, _, _, by assumption, Or.inl ⟨rfl, rfl⟩, (Option.some.inj h).symm⟩
    · cases h
  | discard i =>
    right; left
    simp only [step] at h
    split at h
    · exact ⟨i, _, _, by assumption, Or.inr ⟨rfl, rfl⟩, (Option.some.inj h).symm⟩
    · cases h
  | go i a =>
    right; right
    simp only [step] at h
    split at h
    · cases h
    · split at h
      · exact ⟨i, a, _, _, _, rfl, by assumption, by assumption, (Option.some.inj h).symm⟩
      · cases h

/-- Channels and hands hold containers of the right language. -/
structure Sorted (s : PoolState) : Prop where
  filed : Filed s.pool
  labelled : ∀ r ∈ s.routines, r.Labelled

theorem Sorted.step {s s' : PoolState} {act : PoolAction} (hs : Sorted s)
    (h : s.step act = some s') : Sorted s' := by
  rcases s.step_cases h with ⟨c, -, -, rfl⟩ | ⟨i, c, r', hi, hr', rfl⟩ |
    ⟨i, a, r, r', p', -, hi, hadv, rfl⟩
  · refine ⟨hs.filed, fun r hr => ?_⟩
    rcases List.mem_append.mp hr with hr | hr
    · exact hs.labelled r hr
    · rw [List.mem_singleton.mp hr]
      cases c <;> exact fun _ _ _ hc => nomatch hc
  · refine ⟨hs.filed, fun r hr => ?_⟩
    rcases List.mem_or_eq_of_mem_set hr with hr | rfl
    · exact hs.labelled r hr
    · rcases hr' with ⟨-, rfl⟩ | ⟨-, rfl⟩ <;> exact fun _ hl => nomatch hl
  · have hlab := hs.labelled r (List.mem_of_getElem? hi)
    obtain ⟨q, b, hmove, rfl⟩ := advance_steps hlab hadv
    have hfiled : Filed q := hs.filed.move hmove
    refine ⟨hfiled, fun x hx => ?_⟩
    rcases List.mem_or_eq_of_mem_set hx with hx | rfl
    · exact hs.labelled x hx
    · exact Routine.Labelled.advance hs.filed hlab hadv

/-- A step of a sorted state, with the move it makes. -/
theorem Sorted.step_moves {s s' : PoolState} {act : PoolAction} (hs : Sorted s)
    (h : s.step act = some s') :
    (∃ c, act = .call c ∧ (c = .autoscale → s.routines.any Routine.isAutoscaler = false) ∧
      s' = ⟨s.pool, s.routines ++ [c.start]⟩) ∨
    (∃ i c r', s.routines[i]? = some (.acquired c) ∧
      (act = .release i ∧ r' = .release c ∨ act = .discard i ∧ r' = .discard c) ∧
      s' = ⟨s.pool, s.routines.set i r'⟩) ∨
    (∃ i a r r' q b, act = .go i a ∧ s.routines[i]? = some r ∧
      r.advance s.pool a = some (q.setLocked b, r') ∧ Move s.pool r r' q ∧
      s' = ⟨q.setLocked b, s.routines.set i r'⟩) := by
  rcases s.step_cases h with h | h | ⟨i, a, r, r', p', hact, hi, hadv, rfl⟩
  · exact Or.inl h
  · exact Or.inr (Or.inl h)
  · obtain ⟨q, b, hmove, rfl⟩ := advance_steps (hs.labelled r (List.mem_of_getElem? hi)) hadv
    exact Or.inr (Or.inr ⟨i, a, r, r', q, b, hact, hi, hadv, hmove, rfl⟩)

/-! ## Start-up -/

theorem Filed.warmUpOne {p : ContainerPool} (hp : Filed p) (lang id : String) :
    Filed (ContainerPool.warmUpOne lang p id) := by
  unfold ContainerPool.warmUpOne
  rcases hsend : ContainerPool.send { p with issued := id :: p.issued } lang ⟨id, lang⟩ with _ | p'
  · simp only [hsend]
    exact hp
  · simp only [hsend]
    have hp' : Filed { p with issued := id :: p.issued } := hp
    exact hp'.send (c := ⟨id, lang⟩) rfl hsend

theorem Warmed.filed {p : ContainerPool} (h : Warmed p) : Filed p := by
  induction h with
  | new globalCap => exact fun _ _ hc => nomatch hc
  | @warmUp p _ lang image min max ids _ _ _ _ ih =>
    unfold ContainerPool.warmUp
    refine List.foldlRecOn (ids.take min) _ ?_ fun q hq id _ => hq.warmUpOne lang id
    intro l c hc
    unfold ContainerPool.idle at hc
    by_cases hl : l = lang
    · subst hl
      simp only [Function.update_self, Channel.buffer_make, List.not_mem_nil] at hc
    · simp only [Function.update_of_ne hl] at hc
      exact ih l c hc

/-- **Every reachable state is sorted by language.** -/
theorem reachable_sorted {C : PoolState → PoolAction → Prop} {s : PoolState}
    (h : system.ReachableVia C s) : Sorted s :=
  h.invariant
    (fun s hs => ⟨hs.1.filed, fun r hr => by rw [hs.2] at hr; cases hr⟩)
    (fun _ _ _ hs _ hstep => hs.step hstep)

/-! ## Sums over the routines -/

/-- The total of a quantity over all routines. -/
def total (f : Routine → ℕ) (routines : List Routine) : ℕ := (routines.map f).sum

theorem total_set (f : Routine → ℕ) {routines : List Routine} {i : ℕ} {r : Routine}
    (hi : routines[i]? = some r) (r' : Routine) :
    total f (routines.set i r') + f r = total f routines + f r' := by
  unfold total
  induction routines generalizing i with
  | nil => cases hi
  | cons x xs ih =>
    cases i with
    | zero =>
      obtain rfl := Option.some.inj hi
      simp only [List.set_cons_zero, List.map_cons, List.sum_cons]
      omega
    | succ i =>
      have := ih hi
      simp only [List.set_cons_succ, List.map_cons, List.sum_cons]
      omega

theorem total_start (f : Routine → ℕ) (routines : List Routine) (r : Routine) (hr : f r = 0) :
    total f (routines ++ [r]) = total f routines := by
  unfold total
  rw [List.map_append, List.sum_append, List.map_singleton, List.sum_singleton, hr, Nat.add_zero]

theorem le_total (f : Routine → ℕ) {routines : List Routine} {i : ℕ} {r : Routine}
    (hi : routines[i]? = some r) : f r ≤ total f routines :=
  List.le_sum_of_mem (List.mem_map_of_mem (List.mem_of_getElem? hi))

end Pool
