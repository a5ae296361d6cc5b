/-
# The global cap

The containers of all languages together stay below the global cap as long as
the two decisions that can exceed it are made with the containers in transit and
the unfilled targets in view: reading a shortfall, and raising a target.

`committed` is what the pool has promised: for each language the larger of its
target and its population.  `globalLiveTotal`, which the autoscaler compares with
the cap instead, counts neither a target that is not filled yet nor a container
that a routine has in its hand (`global_cap_fails`).
-/
import JudgePlatform.Pool.Population

namespace Pool

open ContainerPool

/-! ## Sums over the languages -/

/-- Changing one term of a sum over distinct languages. -/
theorem sum_le_sum_add {langs : List String} (hnodup : langs.Nodup) {f g : String → ℕ}
    (lang : String) (d : ℕ) (hne : ∀ l, l ≠ lang → f l ≤ g l) (hlang : f lang ≤ g lang + d) :
    (langs.map f).sum ≤ (langs.map g).sum + d := by
  induction langs with
  | nil => exact Nat.zero_le _
  | cons l langs ih =>
    obtain ⟨hl, hnodup'⟩ := List.nodup_cons.mp hnodup
    rw [List.map_cons, List.map_cons, List.sum_cons, List.sum_cons]
    by_cases h : l = lang
    · subst h
      have hrest : (langs.map f).sum ≤ (langs.map g).sum := by
        refine List.sum_le_sum fun x hx => hne x ?_
        rintro rfl
        exact hl hx
      omega
    · have := hne l h
      have := ih hnodup'
      omega

/-- Containers of listed languages are all counted by language. -/
theorem length_le_sum_countLang {langs : List String} (cs : List PooledContainer)
    (h : ∀ c ∈ cs, c.language ∈ langs) :
    cs.length ≤ (langs.map fun l => countLang l cs).sum := by
  induction cs with
  | nil => exact Nat.zero_le _
  | cons c cs ih =>
    have hcs := ih fun d hd => h d (List.mem_cons_of_mem c hd)
    have hone : 1 ≤ (langs.map fun l => if c.language = l then 1 else 0).sum := by
      refine List.single_le_sum (fun _ _ => Nat.zero_le _) 1 (List.mem_map.mpr ?_)
      exact ⟨c.language, h c List.mem_cons_self, if_pos rfl⟩
    simp only [countLang_cons]
    rw [List.sum_map_add, List.length_cons]
    omega

/-! ## The languages the pool knows -/

/-- The languages are distinct, and a language that is not listed has no limits. -/
structure Registered (p : ContainerPool) : Prop where
  nodup : p.languages.Nodup
  limits : ∀ l, l ∉ p.languages → p.limits l = ⟨0, 0⟩

/-- One container of `WarmUp` fills at most one slot, and makes no channel. -/
theorem warmUpOne_channels (p : ContainerPool) (lang id l : String) :
    ((warmUpOne lang p id).availChans l = none ↔ p.availChans l = none) ∧
      (warmUpOne lang p id).availCount l ≤ p.availCount l + if l = lang then 1 else 0 := by
  unfold warmUpOne
  rcases hsend : ContainerPool.send { p with issued := id :: p.issued } lang ⟨id, lang⟩ with _ | p'
  · simp only [hsend]
    exact ⟨Iff.rfl, Nat.le_add_right _ _⟩
  · simp only [hsend]
    have hcur := current_send hsend l
    obtain ⟨ch, ch', hch, rfl, -, -⟩ := send_eq_some hsend
    constructor
    · unfold setChan
      by_cases hl : l = lang
      · subst hl
        have hsome : p.availChans l = some ch := hch
        simp only [Function.update_self, hsome, reduceCtorEq]
      · simp only [Function.update_of_ne hl]
    · change p.inUseCount l + _ = p.inUseCount l + p.availCount l + _ at hcur
      omega

theorem foldl_warmUpOne_channels (lang l : String) (ids : List String) :
    ∀ p : ContainerPool, ((ids.foldl (warmUpOne lang) p).availChans l = none ↔
      p.availChans l = none) ∧
      (ids.foldl (warmUpOne lang) p).availCount l ≤
        p.availCount l + if l = lang then ids.length else 0 := by
  induction ids with
  | nil => exact fun p => ⟨Iff.rfl, Nat.le_add_right _ _⟩
  | cons id ids ih =>
    intro p
    obtain ⟨hchan, hcount⟩ := warmUpOne_channels p lang id l
    obtain ⟨hchan', hcount'⟩ := ih (warmUpOne lang p id)
    refine ⟨hchan'.trans hchan, ?_⟩
    rw [List.foldl_cons, List.length_cons]
    split_ifs at * <;> omega

/-- How the pool starts: every target is the minimum, and no more containers
than that are waiting. -/
structure Started (p : ContainerPool) : Prop where
  registered : Registered p
  channels : ∀ l ∈ p.languages, p.availChans l ≠ none
  targets : ∀ l, p.targets l = (p.limits l).min
  availCount : ∀ l, p.availCount l ≤ (p.limits l).min

theorem Warmed.started {p : ContainerPool} (h : Warmed p) : Started p := by
  induction h with
  | new globalCap =>
    exact ⟨⟨List.nodup_nil, fun _ _ => rfl⟩, fun _ hl => (nomatch hl), fun _ => rfl,
      fun _ => le_rfl⟩
  | @warmUp p _ lang image min max ids hmin hlang hfresh hnodup ih =>
    obtain ⟨hlimits, htargets, -, hlangs, -⟩ := warmUp_frame p lang image min max ids
    have hnew : lang ∉ p.languages := fun hmem => ih.channels lang hmem hlang
    have hloop := fun l => foldl_warmUpOne_channels lang l (ids.take min)
      { p with
        images := Function.update p.images lang image
        availChans := Function.update p.availChans lang (some (Channel.make max))
        languages := lang :: p.languages
        limits := Function.update p.limits lang ⟨min, max⟩
        targets := Function.update p.targets lang min }
    refine ⟨⟨?_, fun l hl => ?_⟩, fun l hl => ?_, fun l => ?_, fun l => ?_⟩
    · rw [hlangs]
      exact List.nodup_cons.mpr ⟨hnew, ih.registered.nodup⟩
    · rw [hlangs, List.mem_cons, not_or] at hl
      rw [hlimits, Function.update_of_ne hl.1]
      exact ih.registered.limits l hl.2
    · rw [hlangs] at hl
      intro hnone
      have hnone' := (hloop l).1.mp hnone
      rcases List.mem_cons.mp hl with rfl | hl
      · simp only [Function.update_self, reduceCtorEq] at hnone'
      · have hne : l ≠ lang := fun h => hnew (h ▸ hl)
        simp only [Function.update_of_ne hne] at hnone'
        exact ih.channels l hl hnone'
    · rw [hlimits, htargets]
      by_cases hl : l = lang
      · rw [hl, Function.update_self, Function.update_self]
      · rw [Function.update_of_ne hl, Function.update_of_ne hl]
        exact ih.targets l
    · have hcount := (hloop l).2
      rw [hlimits]
      refine le_trans hcount ?_
      have htake := List.length_take_le min ids
      unfold ContainerPool.availCount idle
      by_cases hl : l = lang
      · subst hl
        simp only [Function.update_self, Channel.buffer_make, if_true, List.length_nil]
        omega
      · simp only [Function.update_of_ne hl, if_neg hl]
        exact ih.availCount l

theorem reachable_registered {C : PoolState → PoolAction → Prop} {s : PoolState}
    (h : system.ReachableVia C s) : Registered s.pool := by
  induction h with
  | init hinit => exact hinit.1.started.registered
  | step hs _ hstep ih =>
    obtain ⟨hlimits, -, hlangs, -⟩ := step_frame (reachable_sorted hs) hstep
    constructor
    · rw [hlangs]
      exact ih.nodup
    · intro l hl
      rw [hlangs] at hl
      rw [hlimits]
      exact ih.limits l hl

/-- **A language that is not listed has no containers.** -/
theorem population_unregistered {C : PoolState → PoolAction → Prop} {s : PoolState}
    (h : system.ReachableVia C s) {l : String} (hl : l ∉ s.pool.languages) :
    s.population l = 0 := by
  induction h with
  | @init s hinit =>
    have hstart := hinit.1.started
    have hcount := hstart.availCount l
    obtain ⟨pool, routines⟩ := s
    obtain ⟨hwarm, rfl⟩ := hinit
    rw [hstart.registered.limits l hl] at hcount
    rw [hwarm.population]
    exact Nat.le_zero.mp hcount
  | @step s s' act hs _ hstep ih =>
    have hsorted := reachable_sorted hs
    rw [(step_frame hsorted hstep).2.2.1] at hl
    have hzero := ih hl
    rcases population_step hsorted (reachable_ticketed hs.reachable) hstep l with
      hle | ⟨⟨i, a, r, -, -, -, hshort⟩, -⟩
    · omega
    · -- its target is at most its `max`, which is zero
      have htarget := ((reachable_bounded hs).targets l).2
      rw [(reachable_registered hs).limits l hl] at htarget
      change s.pool.targets l ≤ 0 at htarget
      omega

/-! ## What is committed -/

/-- A language's share: its target, or its population where that is larger. -/
def PoolState.share (s : PoolState) (lang : String) : ℕ :=
  max (s.pool.targets lang) (s.population lang)

def PoolState.committed (s : PoolState) : ℕ := (s.pool.languages.map s.share).sum

/-- All live containers: in use, idle, or in a routine's hand. -/
def PoolState.liveTotal (s : PoolState) : ℕ :=
  s.pool.globalLiveTotal + total (fun r => r.hands.length) s.routines

/-- A shortfall that `convergeLang` reads leaves room under the cap for the
containers of the language it does not see, and so does a target that the
autoscaler raises. -/
structure KeepsRoom (s : PoolState) (act : PoolAction) : Prop where
  shortfall : ∀ lang, ReadsShortfall lang s act →
    s.committed + min (s.transit lang) (s.pool.targets lang - s.pool.current lang) ≤
      s.pool.globalCap
  raise : ∀ lang newTarget, SetsTarget lang newTarget s act →
    s.committed + (newTarget - s.share lang) ≤ s.pool.globalCap

/-- Containers in the hands of routines are in transit. -/
theorem hands_le_transit (s : PoolState)
    (h : ∀ r ∈ s.routines, ∀ c ∈ r.hands, c.language ∈ s.pool.languages) :
    total (fun r => r.hands.length) s.routines ≤ (s.pool.languages.map s.transit).sum := by
  have hlen : (s.routines.flatMap Routine.hands).length ≤
      (s.pool.languages.map fun l => countLang l (s.routines.flatMap Routine.hands)).sum := by
    refine length_le_sum_countLang _ fun c hc => ?_
    obtain ⟨r, hr, hc⟩ := List.mem_flatMap.mp hc
    exact h r hr c hc
  rw [List.length_flatMap] at hlen
  refine hlen.trans (List.sum_le_sum fun l _ => ?_)
  unfold countLang
  rw [List.countP_flatMap]
  exact total_mono (fun r => Nat.le_add_right _ _) s.routines

/-- **The live containers are committed.** -/
theorem liveTotal_le_committed {C : PoolState → PoolAction → Prop} {s : PoolState}
    (h : system.ReachableVia C s) : s.liveTotal ≤ s.committed := by
  have hdef : ∀ l, s.population l =
      countLang l s.pool.inUse + s.pool.availCount l + s.transit l := fun _ => rfl
  -- every container is of a listed language
  have hinUse : ∀ c ∈ s.pool.inUse, c.language ∈ s.pool.languages := by
    intro c hc
    by_contra hl
    have hzero := population_unregistered h hl
    have hpos : 0 < countLang c.language s.pool.inUse :=
      List.countP_pos_iff.mpr ⟨c, hc, decide_eq_true rfl⟩
    rw [hdef] at hzero
    omega
  have hhands : ∀ r ∈ s.routines, ∀ c ∈ r.hands, c.language ∈ s.pool.languages := by
    intro r hr c hc
    by_contra hl
    have hzero := population_unregistered h hl
    have hpos : 0 < countLang c.language r.hands :=
      List.countP_pos_iff.mpr ⟨c, hc, decide_eq_true rfl⟩
    have hle : weight c.language r ≤ s.transit c.language :=
      List.le_sum_of_mem (List.mem_map_of_mem hr)
    unfold weight at hle
    rw [hdef] at hzero
    omega
  have h1 := length_le_sum_countLang _ hinUse
  have h2 := hands_le_transit s hhands
  have h3 : (s.pool.languages.map fun l =>
      countLang l s.pool.inUse + s.pool.availCount l + s.transit l).sum ≤ s.committed :=
    List.sum_le_sum fun l _ => le_max_right _ _
  rw [List.sum_map_add, List.sum_map_add] at h3
  show s.pool.inUse.length + (s.pool.languages.map s.pool.availCount).sum + _ ≤ _
  omega

/-! ## One step and the commitment -/

/-- A step reads the shortfall of one language at most. -/
theorem ReadsShortfall.unique {l l' : String} {s : PoolState} {act : PoolAction}
    (h : ReadsShortfall l s act) (h' : ReadsShortfall l' s act) : l' = l := by
  obtain ⟨i, a, r, rfl, hi, ⟨k, rfl⟩, -⟩ := h
  obtain ⟨j, b, r, hact, hj, ⟨k', rfl⟩, -⟩ := h'
  obtain ⟨rfl, -⟩ := PoolAction.go.inj hact
  rw [hi] at hj
  exact (Routine.converge.inj (Option.some.inj hj)).1.symm

/-- A step that sets a target reads no shortfall. -/
theorem SetsTarget.not_readsShortfall {l lang : String} {n : ℕ} {s : PoolState}
    {act : PoolAction} (h : SetsTarget lang n s act) : ¬ ReadsShortfall l s act := by
  obtain ⟨i, a, langs, rfl, hi⟩ := h
  rintro ⟨j, b, r, hact, hj, ⟨k, rfl⟩, -⟩
  obtain ⟨rfl, -⟩ := PoolAction.go.inj hact
  rw [hi] at hj
  cases hj

/-- **A step that keeps room keeps the commitment under the cap.** -/
theorem committed_step {s s' : PoolState} {act : PoolAction} (hs : Sorted s) (ht : Ticketed s)
    (hreg : Registered s.pool) (hcap : s.committed ≤ s.pool.globalCap) (hroom : KeepsRoom s act)
    (h : s.step act = some s') : s'.committed ≤ s.pool.globalCap := by
  obtain ⟨-, -, hlangs, htargets⟩ := step_frame hs h
  have hpop := population_step hs ht h
  unfold PoolState.committed
  rw [hlangs]
  rcases htargets with htargets | ⟨lang, n, hset, htargets⟩
  · by_cases hshort : ∃ lang, ReadsShortfall lang s act
    · obtain ⟨lang, hshort⟩ := hshort
      refine le_trans (sum_le_sum_add hreg.nodup lang
        (min (s.transit lang) (s.pool.targets lang - s.pool.current lang))
        (fun l hl => ?_) ?_) (hroom.shortfall lang hshort)
      · rcases hpop l with hle | ⟨hread, -⟩
        · unfold PoolState.share
          rw [htargets]
          exact max_le_max le_rfl hle
        · exact absurd (hshort.unique hread) hl
      · have hdef : s.population lang = s.pool.current lang + s.transit lang := rfl
        unfold PoolState.share
        rw [htargets]
        rcases hpop lang with hle | ⟨-, heq⟩ <;> omega
    · refine le_trans (List.sum_le_sum fun l _ => ?_) hcap
      rcases hpop l with hle | ⟨hread, -⟩
      · unfold PoolState.share
        rw [htargets]
        exact max_le_max le_rfl hle
      · exact absurd ⟨l, hread⟩ hshort
  · have hle : ∀ l, s'.population l ≤ s.population l := by
      intro l
      rcases hpop l with hle | ⟨hread, -⟩
      · exact hle
      · exact absurd hread hset.not_readsShortfall
    refine le_trans (sum_le_sum_add hreg.nodup lang (n - s.share lang) (fun l hl => ?_) ?_)
      (hroom.raise lang n hset)
    · unfold PoolState.share
      rw [htargets, Function.update_of_ne hl]
      exact max_le_max le_rfl (hle l)
    · have := hle lang
      unfold PoolState.share
      rw [htargets, Function.update_self]
      omega

/-! ## Main results -/

/-- The pool of a start-up that has checked the sum of the minimums. -/
def cappedSystem : TransitionSystem PoolState PoolAction where
  init s := system.init s ∧
    (s.pool.languages.map fun l => (s.pool.limits l).min).sum ≤ s.pool.globalCap
  step := PoolState.step

theorem cappedSystem_reachable {C : PoolState → PoolAction → Prop} {s : PoolState}
    (h : cappedSystem.ReachableVia C s) : system.ReachableVia C s := by
  induction h with
  | init h => exact .init h.1
  | step _ hC hstep ih => exact .step ih hC hstep

theorem committed_le_globalCap {s : PoolState} (h : cappedSystem.ReachableVia KeepsRoom s) :
    s.committed ≤ s.pool.globalCap := by
  induction h with
  | @init s hinit =>
    obtain ⟨hinit, hsum⟩ := hinit
    have hstart := hinit.1.started
    refine le_trans (List.sum_le_sum fun l _ => ?_) hsum
    obtain ⟨pool, routines⟩ := s
    obtain ⟨hwarm, rfl⟩ := hinit
    unfold PoolState.share
    rw [hwarm.population, hstart.targets l]
    exact max_le le_rfl (hstart.availCount l)
  | @step s s' act hs hroom hstep ih =>
    have hsys := cappedSystem_reachable hs
    have hsorted := reachable_sorted hsys
    rw [(step_frame hsorted hstep).2.1]
    exact committed_step hsorted (reachable_ticketed hsys.reachable) (reachable_registered hsys)
      ih hroom hstep

/-- **Global cap.**  In every run in which the shortfalls read and the targets
raised leave room for what is in transit and not yet filled, the live containers
of all languages never exceed the cap. -/
theorem global_cap {s : PoolState} (h : cappedSystem.ReachableVia KeepsRoom s) :
    s.liveTotal ≤ s.pool.globalCap :=
  (liveTotal_le_committed (cappedSystem_reachable h)).trans (committed_le_globalCap h)

/-- `convergeLang` after a start-up at which Docker created nothing. -/
theorem global_cap_converge :
    PoolState.liveTotal ⟨(newPool 4).warmUp "python" "judge-python" 1 2 [],
      [.convergeCreate "python" 1 .other]⟩ ≤ 4 := by
  have hwarm : Warmed ((newPool 4).warmUp "python" "judge-python" 1 2 []) :=
    .warmUp (.new 4) _ _ _ _ _ (by decide) rfl (by decide) (by decide)
  have hcall : cappedSystem.ReachableVia KeepsRoom
      ⟨(newPool 4).warmUp "python" "judge-python" 1 2 [], [.converge "python" .other]⟩ := by
    refine .step (a := .call (.convergeLang "python"))
      (.init (s := ⟨_, []⟩) ⟨⟨hwarm, rfl⟩, by decide⟩) ⟨?_, ?_⟩ rfl
    · rintro lang ⟨i, a, r, h, -⟩
      cases h
    · rintro lang n ⟨i, a, langs, h, -⟩
      cases h
  have hread : cappedSystem.ReachableVia KeepsRoom
      ⟨(newPool 4).warmUp "python" "judge-python" 1 2 [],
        [.convergeCreate "python" 1 .other]⟩ := by
    refine .step (a := .go 0 .ok) hcall ⟨?_, ?_⟩ rfl
    · rintro lang ⟨i, a, r, h, hi, ⟨k, rfl⟩, -⟩
      cases h
      cases hi
      decide
    · rintro lang n ⟨i, a, langs, h, hi⟩
      cases h
      cases hi
  exact global_cap hread

/-- **The autoscaler does not see a container that `Discard` is replacing**: with
a cap of one, three containers are live. -/
theorem global_cap_fails :
    ∃ s, cappedSystem.Reachable s ∧ s.pool.globalCap = 1 ∧ s.liveTotal = 3 := by
  have hwarm : Warmed ((newPool 1).warmUp "python" "judge-python" 1 2 ["c1"]) :=
    .warmUp (.new 1) _ _ _ _ _ (by decide) rfl (by decide) (by decide)
  obtain ⟨s, hrun, hcap, hlive⟩ : ∃ s, cappedSystem.run
      ⟨(newPool 1).warmUp "python" "judge-python" 1 2 ["c1"], []⟩
      [.call (.acquire "python"), .go 0 .ok, .go 0 .ok, .go 0 .ok, .discard 0, .go 0 .ok,
        -- the tick finds nothing in use and nothing idle
        .call .autoscale, .go 1 .ok, .go 1 .ok, .go 1 .ok,
        .go 1 (.signal 900 500 50 true 1 true true), .go 1 .ok,
        .go 1 .ok, .go 1 (.created "c2"), .go 1 .ok, .go 1 (.created "c3")] = some s ∧
      s.pool.globalCap = 1 ∧ s.liveTotal = 3 := ⟨_, rfl, rfl, rfl⟩
  exact ⟨s, TransitionSystem.Reachable.run (.init ⟨⟨hwarm, rfl⟩, by decide⟩) hrun, hcap, hlive⟩

end Pool
