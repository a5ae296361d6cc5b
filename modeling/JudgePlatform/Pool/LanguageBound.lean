/-
# The bound on a language's containers

As long as every shortfall that `convergeLang` reads leaves room for the
containers it does not see, a language never has more live containers than its
`max`, and no container ever finds its channel full.

A container that `Discard` has just taken out of the in-use map is one that
`convergeLang` does not see, and is going to be replaced all the same; so the
bound does not hold of every run (`language_bound_fails`).
-/
import JudgePlatform.Pool.Population

namespace Pool

open ContainerPool

/-- When `convergeLang` reads a shortfall of the language, the target leaves
room for the containers in transit. -/
def CountsAll (lang : String) (s : PoolState) (act : PoolAction) : Prop :=
  ReadsShortfall lang s act → s.pool.targets lang + s.transit lang ≤ (s.pool.limits lang).max

/-- The language whose channel the routine has found full. -/
def Routine.overflow : Routine → Option String
  | releaseRemove c | discardDrop c => some c.language
  | convergeDrop lang _ _ _ | healthDrop lang _ _ _ _ => some lang
  | _ => none

/-- **The population stays below `max`.** -/
theorem population_le_max {lang : String} {s : PoolState}
    (h : system.ReachableVia (CountsAll lang) s) :
    s.population lang ≤ (s.pool.limits lang).max := by
  induction h with
  | @init s hinit =>
    have hbound := reachable_bounded (.init hinit : system.Reachable s)
    have hfits := availCount_le_capacity s.pool lang
    obtain ⟨pool, routines⟩ := s
    obtain ⟨hwarm, rfl⟩ := hinit
    rw [hwarm.population]
    exact hfits.trans (hbound.capacity lang).le
  | @step s s' act hs hcounts hstep ih =>
    have hsorted := reachable_sorted hs
    rw [(step_frame hsorted hstep).1]
    rcases population_step hsorted (reachable_ticketed hs.reachable) hstep lang with
      hle | ⟨hshort, heq⟩
    · exact hle.trans ih
    · rw [heq]
      exact hcounts hshort

/-- A routine finds a channel full only with a container of that language in its
hand, at a send that is refused. -/
theorem Routine.overflow_advance {p p' : ContainerPool} {r r' : Routine} {a : Answer}
    {lang : String} (hr : r.Labelled) (h : r.advance p a = some (p', r'))
    (hfull : r'.overflow = some lang) (hold : r.overflow ≠ some lang) :
    ∃ c, r.hands = [c] ∧ c.language = lang ∧ p.send lang c = none := by
  revert h
  fun_cases Routine.advance p r a
  all_goals
    intro h
    first
      | cases h; done
      | obtain ⟨rfl, rfl⟩ := Prod.mk.inj (Option.some.inj h)
  all_goals first
    | cases hfull; done
    | (cases ‹Caller› <;> cases hfull; done)
    | exact ⟨_, rfl, Option.some.inj hfull, Option.some.inj hfull ▸ by assumption⟩
    | exact ⟨_, rfl, (hr _ rfl _ (List.mem_singleton_self _)).trans (Option.some.inj hfull),
        Option.some.inj hfull ▸ by assumption⟩

/-- No container finds its channel full. -/
theorem no_overflow {lang : String} {s : PoolState}
    (h : system.ReachableVia (CountsAll lang) s) :
    ∀ r ∈ s.routines, r.overflow ≠ some lang := by
  induction h with
  | @init s hinit =>
    intro r hr
    rw [hinit.2] at hr
    cases hr
  | @step s s' act hs hcounts hstep ih =>
    have hsorted := reachable_sorted hs
    rcases s.step_cases hstep with ⟨c, -, -, rfl⟩ | ⟨i, c, r', hi, hr', rfl⟩ |
      ⟨i, a, r, r', p', -, hi, hadv, rfl⟩
    · intro r hr
      rcases List.mem_append.mp hr with hr | hr
      · exact ih r hr
      · rw [List.mem_singleton.mp hr]
        cases c <;> exact fun hfull => nomatch hfull
    · intro r hr
      rcases List.mem_or_eq_of_mem_set hr with hr | rfl
      · exact ih r hr
      · rcases hr' with ⟨-, rfl⟩ | ⟨-, rfl⟩ <;> exact fun hfull => nomatch hfull
    · intro x hx
      rcases List.mem_or_eq_of_mem_set hx with hx | rfl
      · exact ih x hx
      intro hfull
      have hmem := List.mem_of_getElem? hi
      obtain ⟨c, hands, hlang, hsend⟩ :=
        Routine.overflow_advance (hsorted.labelled r hmem) hadv hfull (ih r hmem)
      -- a full channel and the container in hand are more than `max`
      have hpop := population_le_max hs
      have hroom := send_eq_none_iff.mp hsend
      have hcap := (reachable_bounded hs).capacity lang
      have hle : weight lang r ≤ s.transit lang := le_total (weight lang) hi
      rw [weight_of_hands hands, if_pos hlang] at hle
      have hdef : s.population lang =
        s.pool.inUseCount lang + s.pool.availCount lang + s.transit lang := rfl
      omega

/-- **Per-language bound.**  In every run in which each shortfall read by
`convergeLang` leaves room for the containers in transit, the live containers of
the language never exceed `max` and no routine finds its channel full. -/
theorem language_bound {lang : String} {s : PoolState}
    (h : system.ReachableVia (CountsAll lang) s) :
    s.live lang ≤ (s.pool.limits lang).max ∧ ∀ r ∈ s.routines, r.overflow ≠ some lang :=
  ⟨(live_le_population s lang).trans (population_le_max h), no_overflow h⟩

/-- A pool warmed up with one Python container, and room for no other. -/
def singlePool : ContainerPool := (newPool 4).warmUp "python" "judge-python" 1 1 ["c1"]

theorem singlePool_warmed : Warmed singlePool :=
  .warmUp (.new 4) _ _ _ _ _ (by decide) rfl (by decide) (by decide)

/-- `convergeLang` after a start-up at which Docker created nothing. -/
theorem language_bound_single :
    PoolState.live ⟨(newPool 4).warmUp "python" "judge-python" 1 1 [],
      [.convergeCreate "python" 1 .other]⟩ "python" ≤ 1 := by
  have hwarm : Warmed ((newPool 4).warmUp "python" "judge-python" 1 1 []) :=
    .warmUp (.new 4) _ _ _ _ _ (by decide) rfl (by decide) (by decide)
  have hcall : system.ReachableVia (CountsAll "python")
      ⟨(newPool 4).warmUp "python" "judge-python" 1 1 [], [.converge "python" .other]⟩ := by
    refine .step (a := .call (.convergeLang "python")) (.init (s := ⟨_, []⟩) ⟨hwarm, rfl⟩) ?_ rfl
    rintro ⟨i, a, r, h, -⟩
    cases h
  have hread : system.ReachableVia (CountsAll "python")
      ⟨(newPool 4).warmUp "python" "judge-python" 1 1 [],
        [.convergeCreate "python" 1 .other]⟩ :=
    .step (a := .go 0 .ok) hcall (fun _ => by decide) rfl
  exact (language_bound hread).1

/-- **`Discard` and `convergeLang` both replace one container**: with `max = 1`
two containers are live, and one of them finds the channel full. -/
theorem language_bound_fails :
    ∃ s, system.Reachable s ∧ s.pool.limits "python" = ⟨1, 1⟩ ∧ s.live "python" = 2 ∧
      s.routines = [.done, .convergeDrop "python" ⟨"c2", "python"⟩ 0 .other] := by
  obtain ⟨s, hrun, hlimits, hlive, hroutines⟩ : ∃ s, system.run ⟨singlePool, []⟩
      [.call (.acquire "python"), .go 0 .ok, .go 0 .ok, .go 0 .ok, .discard 0, .go 0 .ok,
        -- the container is in nobody's count when `convergeLang` looks
        .call (.convergeLang "python"), .go 1 .ok, .go 1 (.created "c2"),
        .go 0 .ok, .go 0 (.created "c3"), .go 0 .ok, .go 1 .ok] = some s ∧
      s.pool.limits "python" = ⟨1, 1⟩ ∧ s.live "python" = 2 ∧
      s.routines = [.done, .convergeDrop "python" ⟨"c2", "python"⟩ 0 .other] :=
    ⟨_, rfl, rfl, rfl, rfl⟩
  exact ⟨s, TransitionSystem.Reachable.run (.init ⟨singlePool_warmed, rfl⟩) hrun, hlimits, hlive,
    hroutines⟩

end Pool
