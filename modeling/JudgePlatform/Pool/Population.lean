/-
# How many containers a language has

`population l` counts the containers of a language together with those that a
routine has already decided to create: in use, idle, in the hand of a routine,
or still to come.  No step raises it, with one exception: when `convergeLang`
reads a shortfall it counts only the in-use map and the channel, so that
afterwards the population is the target plus whatever was in transit at that
moment (`population_step`).

The rest of the module is about the numbers a bound on the population is
compared with: the limits never change, and the targets stay inside them
(`Bounded`).
-/
import JudgePlatform.Pool.Exclusivity

namespace Pool

open ContainerPool

/-! ## Counting -/

/-- How many of the containers are of a language. -/
def countLang (lang : String) (cs : List PooledContainer) : ℕ := cs.countP (·.language = lang)

@[simp] theorem countLang_nil (lang : String) : countLang lang [] = 0 := rfl

@[simp] theorem countLang_cons (lang : String) (c : PooledContainer) (cs : List PooledContainer) :
    countLang lang (c :: cs) = countLang lang cs + if c.language = lang then 1 else 0 := by
  unfold countLang
  rw [List.countP_cons]
  simp only [decide_eq_true_eq]

/-- The containers of a language a routine has in its hand or is going to create. -/
def weight (lang : String) (r : Routine) : ℕ := countLang lang r.hands + r.pending lang

/-- The containers of a language that `convergeLang`'s count does not see. -/
def PoolState.transit (s : PoolState) (lang : String) : ℕ := total (weight lang) s.routines

/-- What `convergeLang` compares with the target. -/
def ContainerPool.current (p : ContainerPool) (lang : String) : ℕ :=
  p.inUseCount lang + p.availCount lang

def PoolState.population (s : PoolState) (lang : String) : ℕ :=
  s.pool.current lang + s.transit lang

/-- The containers of a language that exist: in use, idle, or in a routine's hand. -/
def PoolState.live (s : PoolState) (lang : String) : ℕ :=
  s.pool.current lang + total (fun r => countLang lang r.hands) s.routines

theorem total_mono {f g : Routine → ℕ} (hfg : ∀ r, f r ≤ g r) (routines : List Routine) :
    total f routines ≤ total g routines := by
  unfold total
  exact List.sum_le_sum fun r _ => hfg r

theorem live_le_population (s : PoolState) (lang : String) : s.live lang ≤ s.population lang :=
  Nat.add_le_add_left (total_mono (fun _ => Nat.le_add_right _ _) _) _

/-! ## The counts after a move -/

section
variable {p q : ContainerPool} {r r' : Routine} {c : PooledContainer} {lang : String}

theorem availCount_setChan (p : ContainerPool) (lang l : String) (ch : Channel PooledContainer) :
    (p.setChan lang ch).availCount l = if l = lang then ch.buffer.length else p.availCount l := by
  unfold availCount
  rw [idle_setChan]
  split_ifs <;> rfl

/-- A received container leaves the count. -/
theorem current_receive (h : p.receive lang = some (c, q)) (l : String) :
    q.current l + (if l = lang then 1 else 0) = p.current l := by
  obtain ⟨ch, ch', -, rfl, -, hidle⟩ := receive_eq_some h
  show p.inUseCount l + (p.setChan lang ch').availCount l + _ = p.inUseCount l + p.availCount l
  rw [availCount_setChan]
  split_ifs with hl
  · rw [hl]
    unfold availCount
    rw [hidle, List.length_cons]
    omega
  · omega

/-- A sent container enters the count. -/
theorem current_send (h : p.send lang c = some q) (l : String) :
    q.current l = p.current l + if l = lang then 1 else 0 := by
  obtain ⟨ch, ch', -, rfl, -, hbuf⟩ := send_eq_some h
  show p.inUseCount l + (p.setChan lang ch').availCount l = p.inUseCount l + p.availCount l + _
  rw [availCount_setChan]
  split_ifs with hl
  · rw [hl, hbuf, List.length_append, List.length_singleton]
    unfold availCount
    omega
  · omega

/-- A registered container enters the count. -/
theorem current_setInUse_le (p : ContainerPool) (c : PooledContainer) (l : String) :
    (p.setInUse c).current l ≤ p.current l + if c.language = l then 1 else 0 := by
  have hle : countLang l (p.inUse.filter (·.id ≠ c.id)) ≤ countLang l p.inUse :=
    List.Sublist.countP_le List.filter_sublist
  show countLang l (c :: p.inUse.filter (·.id ≠ c.id)) + p.availCount l ≤
    countLang l p.inUse + p.availCount l + _
  rw [countLang_cons]
  omega

/-- A container taken out of the in-use map leaves the count. -/
theorem current_deleteInUse_le (hc : c ∈ p.inUse) (l : String) :
    (p.deleteInUse c.id).current l + (if c.language = l then 1 else 0) ≤ p.current l := by
  have hsub : (c :: p.inUse.filter (·.id ≠ c.id)).Subperm p.inUse := by
    refine List.cons_subperm_of_not_mem_of_mem ?_ hc List.filter_sublist.subperm
    rw [List.mem_filter]
    rintro ⟨-, h⟩
    exact of_decide_eq_true h rfl
  have hle : countLang l (c :: p.inUse.filter (·.id ≠ c.id)) ≤ countLang l p.inUse :=
    hsub.countP_le _
  rw [countLang_cons] at hle
  show countLang l (p.inUse.filter (·.id ≠ c.id)) + p.availCount l + _ ≤
    countLang l p.inUse + p.availCount l
  omega

/-! ## One step and the population -/

theorem weight_of_hands {c : PooledContainer} (hands : r.hands = [c]) (l : String) :
    weight l r = (if c.language = l then 1 else 0) + r.pending l := by
  unfold weight
  rw [hands, countLang_cons, countLang_nil, Nat.zero_add]

theorem weight_of_no_hands (hands : r.hands = []) (l : String) : weight l r = r.pending l := by
  unfold weight
  rw [hands, countLang_nil, Nat.zero_add]

/-- `convergeLang` reads a shortfall of the language. -/
def Shortfall (p : ContainerPool) (lang : String) (r : Routine) : Prop :=
  (∃ k, r = .converge lang k) ∧ p.current lang < p.targets lang

/-- **A move does not raise the population**, unless it reads a shortfall: then
the routine takes the whole shortfall on. -/
theorem Move.population (hp : Filed p) (hticket : ∀ c ∈ r.tickets, c ∈ p.inUse)
    (h : Move p r r' q) (l : String) :
    q.current l + weight l r' ≤ p.current l + weight l r ∨
      Shortfall p l r ∧ q = p ∧ weight l r = 0 ∧ p.current l + weight l r' = p.targets l := by
  cases h with
  | quiet hands tickets pending =>
    left
    have := pending l
    unfold weight
    rw [hands]
    omega
  | stray c absent ticket before next =>
    left
    subst next
    rw [weight_of_no_hands (r := .done) rfl]
    exact Nat.add_le_add_left (Nat.zero_le _) _
  | receive lang c p₁ taken before after label ticket ticket' pending =>
    left
    have hcur := current_receive taken l
    have := pending l
    rw [weight_of_hands after, weight_of_no_hands before, (hp.receive taken).1]
    simp only [eq_comm (a := lang)]
    omega
  | send lang c p₁ put language before after ticket ticket' pending =>
    left
    have hcur := current_send put l
    have := pending l
    rw [weight_of_hands before, weight_of_no_hands after, language]
    simp only [eq_comm (a := lang)]
    omega
  | register c before next ticket =>
    left
    have hcur := current_setInUse_le p c l
    subst next
    rw [weight_of_hands before, weight_of_no_hands (r := .acquired c) rfl]
    show _ + 0 ≤ _
    omega
  | unregister c present ticket before after ticket' pending =>
    left
    have hmem : c ∈ p.inUse := hticket c (by rw [ticket]; exact List.mem_cons_self)
    have hcur := current_deleteInUse_le hmem l
    rw [weight_of_hands after, pending l]
    omega
  | remove c before after ticket ticket' pending =>
    left
    have := pending l
    show p.current l + _ ≤ _
    rw [weight_of_hands before, weight_of_no_hands after]
    omega
  | create id lang p₁ fresh before after ticket ticket' pending =>
    left
    obtain ⟨-, rfl⟩ := newPooledContainer_eq_some fresh
    have := pending l
    show p.current l + _ ≤ _
    rw [weight_of_hands after, weight_of_no_hands before]
    simp only
    omega
  | count lang k short start next =>
    subst start next
    by_cases hl : lang = l
    · right
      subst hl
      refine ⟨⟨⟨k, rfl⟩, short⟩, rfl, rfl, ?_⟩
      rw [weight_of_no_hands rfl]
      show p.inUseCount lang + p.availCount lang + (if lang = lang then _ else 0) = _
      rw [if_pos rfl]
      omega
    · left
      rw [weight_of_no_hands rfl, weight_of_no_hands rfl]
      show _ + (if lang = l then _ else 0) ≤ _
      rw [if_neg hl]
      exact Nat.add_le_add_left (Nat.zero_le _) _
  | retarget lang newTarget langs start next =>
    left
    subst start next
    exact le_rfl

end

/-- The step at which routine `i` reads a shortfall of the language. -/
def ReadsShortfall (lang : String) (s : PoolState) (act : PoolAction) : Prop :=
  ∃ i a r, act = .go i a ∧ s.routines[i]? = some r ∧ Shortfall s.pool lang r

/-- **One step and the population.**  It does not grow, unless `convergeLang`
reads a shortfall; afterwards it is the target and what was in transit. -/
theorem population_step {s s' : PoolState} {act : PoolAction} (hs : Sorted s) (ht : Ticketed s)
    (h : s.step act = some s') (lang : String) :
    s'.population lang ≤ s.population lang ∨
      ReadsShortfall lang s act ∧
        s'.population lang = s.pool.targets lang + s.transit lang := by
  rcases hs.step_moves h with ⟨c, -, -, rfl⟩ | ⟨i, c, r', hi, hr', rfl⟩ |
    ⟨i, a, r, r', q, b, hact, hi, -, hmove, rfl⟩
  · left
    show _ + total _ (s.routines ++ [c.start]) ≤ _
    rw [total_start _ _ _ (by cases c <;> rfl)]
    exact le_rfl
  · left
    have hset := total_set (weight lang) hi r'
    have hw : weight lang r' = weight lang (.acquired c) := by
      rcases hr' with ⟨-, rfl⟩ | ⟨-, rfl⟩ <;> rfl
    show s.pool.current lang + total _ (s.routines.set i r') ≤ _ + total _ s.routines
    omega
  · have hset := total_set (weight lang) hi r'
    rcases hmove.population hs.filed (fun c hc => ht.mem hi hc) lang with
      hle | ⟨hshort, rfl, hzero, hcur⟩
    · left
      show q.current lang + total _ (s.routines.set i r') ≤ _ + total _ s.routines
      omega
    · right
      refine ⟨⟨i, a, r, hact, hi, hshort⟩, ?_⟩
      show s.pool.current lang + total _ (s.routines.set i r') =
        s.pool.targets lang + total _ s.routines
      omega

/-! ## Limits and targets -/

/-- How many idle containers of a language there is room for. -/
def ContainerPool.capacity (p : ContainerPool) (lang : String) : ℕ :=
  match p.availChans lang with
  | some ch => ch.capacity
  | none => 0

theorem availCount_le_capacity (p : ContainerPool) (lang : String) :
    p.availCount lang ≤ p.capacity lang := by
  unfold availCount idle capacity
  rcases p.availChans lang with _ | ch
  · exact le_rfl
  · exact ch.fits

/-- A send is refused exactly when there is no room. -/
theorem send_eq_none_iff {p : ContainerPool} {lang : String} {c : PooledContainer} :
    p.send lang c = none ↔ p.availCount lang = p.capacity lang := by
  unfold send availCount idle capacity
  rcases p.availChans lang with _ | ch
  · simp
  · simp only
    rw [← Channel.trySend_eq_none_iff (x := c)]
    rcases ch.trySend c with _ | ch' <;> simp

theorem capacity_setChan {p : ContainerPool} {lang : String} {ch ch' : Channel PooledContainer}
    (hch : p.availChans lang = some ch) (hcap : ch'.capacity = ch.capacity) (l : String) :
    (p.setChan lang ch').capacity l = p.capacity l := by
  unfold capacity setChan
  by_cases hl : l = lang
  · subst hl
    simp only [Function.update_self, hch]
    exact hcap
  · simp only [Function.update_of_ne hl]

/-- **Frame**: no move changes the limits, the cap, the set of languages or the
room in a channel, and only the autoscaler changes a target. -/
theorem Move.frame {p q : ContainerPool} {r r' : Routine} (h : Move p r r' q) :
    q.limits = p.limits ∧ q.globalCap = p.globalCap ∧ q.languages = p.languages ∧
      (∀ l, q.capacity l = p.capacity l) ∧
      (q.targets = p.targets ∨ ∃ lang n langs, r = .autoscaleSet lang n langs ∧
        q.targets = Function.update p.targets lang n) := by
  cases h with
  | receive lang c p₁ taken =>
    obtain ⟨ch, ch', hch, rfl, hcap, _⟩ := receive_eq_some taken
    exact ⟨rfl, rfl, rfl, capacity_setChan hch hcap, Or.inl rfl⟩
  | send lang c p₁ put =>
    obtain ⟨ch, ch', hch, rfl, hcap, _⟩ := send_eq_some put
    exact ⟨rfl, rfl, rfl, capacity_setChan hch hcap, Or.inl rfl⟩
  | create id lang p₁ fresh =>
    obtain ⟨-, rfl⟩ := newPooledContainer_eq_some fresh
    exact ⟨rfl, rfl, rfl, fun _ => rfl, Or.inl rfl⟩
  | retarget lang n langs start =>
    exact ⟨rfl, rfl, rfl, fun _ => rfl, Or.inr ⟨lang, n, langs, start, rfl⟩⟩
  | _ => exact ⟨rfl, rfl, rfl, fun _ => rfl, Or.inl rfl⟩

/-- The step at which routine `i`, the autoscaler, sets a target. -/
def SetsTarget (lang : String) (newTarget : ℕ) (s : PoolState) (act : PoolAction) : Prop :=
  ∃ i a langs, act = .go i a ∧ s.routines[i]? = some (.autoscaleSet lang newTarget langs)

theorem step_frame {s s' : PoolState} {act : PoolAction} (hs : Sorted s)
    (h : s.step act = some s') :
    s'.pool.limits = s.pool.limits ∧ s'.pool.globalCap = s.pool.globalCap ∧
      s'.pool.languages = s.pool.languages ∧
      (s'.pool.targets = s.pool.targets ∨ ∃ lang n, SetsTarget lang n s act ∧
        s'.pool.targets = Function.update s.pool.targets lang n) := by
  rcases hs.step_moves h with ⟨c, -, -, rfl⟩ | ⟨i, c, r', -, -, rfl⟩ |
    ⟨i, a, r, r', q, b, hact, hi, -, hmove, rfl⟩
  · exact ⟨rfl, rfl, rfl, Or.inl rfl⟩
  · exact ⟨rfl, rfl, rfl, Or.inl rfl⟩
  · obtain ⟨hlimits, hcap, hlangs, -, htargets⟩ := hmove.frame
    refine ⟨hlimits, hcap, hlangs, ?_⟩
    rcases htargets with htargets | ⟨lang, n, langs, rfl, htargets⟩
    · exact Or.inl htargets
    · exact Or.inr ⟨lang, n, ⟨i, a, langs, hact, hi⟩, htargets⟩

/-- A target the autoscaler carries along is inside the limits. -/
def Routine.Bounded (limits : String → LangLimits) : Routine → Prop
  | autoscaleHeadroom lang lim target _ | autoscaleDecide lang lim target _ _ =>
    lim = limits lang ∧ lim.min ≤ target ∧ target ≤ lim.max
  | autoscaleSet lang newTarget _ =>
    (limits lang).min ≤ newTarget ∧ newTarget ≤ (limits lang).max
  | _ => True

/-- The targets are inside the limits, and the channels have `max` slots. -/
structure Bounded (s : PoolState) : Prop where
  capacity : ∀ l, s.pool.capacity l = (s.pool.limits l).max
  targets : ∀ l, (s.pool.limits l).min ≤ s.pool.targets l ∧
    s.pool.targets l ≤ (s.pool.limits l).max
  routines : ∀ r ∈ s.routines, r.Bounded s.pool.limits

/-- A scaling decision stays inside the limits it was made for. -/
theorem Routine.Bounded.decide {limits : String → LangLimits} {lang : String} {lim : LangLimits}
    {target : ℕ} {headroom : Bool} {langs : List String}
    (hr : Routine.Bounded limits (.autoscaleDecide lang lim target headroom langs))
    (avgWaitMs upThresholdMs downThresholdMs : ℚ) (hadTraffic : Bool) (timeouts : ℤ)
    (up down : Bool) :
    Routine.Bounded limits (.autoscaleSet lang (decideScale lim.min lim.max target avgWaitMs
      hadTraffic timeouts upThresholdMs downThresholdMs up down headroom).newTarget langs) := by
  obtain ⟨rfl, hmin, hmax⟩ := hr
  show _ ≤ _ ∧ _ ≤ _
  rcases decideScale_cases hmin hmax avgWaitMs hadTraffic timeouts upThresholdMs downThresholdMs
    up down headroom with h | ⟨hlt, h⟩ | ⟨hlt, -, h⟩
  all_goals
    rw [h]
    omega

theorem Routine.Bounded.advance {p p' : ContainerPool} {r r' : Routine} {a : Answer}
    (htargets : ∀ l, (p.limits l).min ≤ p.targets l ∧ p.targets l ≤ (p.limits l).max)
    (hr : r.Bounded p.limits) (h : r.advance p a = some (p', r')) : r'.Bounded p.limits := by
  revert h
  fun_cases Routine.advance p r a
  all_goals
    intro h
    first
      | cases h; done
      | obtain ⟨rfl, rfl⟩ := Prod.mk.inj (Option.some.inj h)
  all_goals first
    | exact trivial
    | (cases ‹Caller› <;> exact trivial)
    | exact hr
    | exact ⟨rfl, htargets _⟩
    | exact Routine.Bounded.decide hr _ _ _ _ _ _ _

theorem Bounded.step {s s' : PoolState} {act : PoolAction} (hb : Bounded s) (hs : Sorted s)
    (h : s.step act = some s') : Bounded s' := by
  rcases hs.step_moves h with ⟨c, -, -, rfl⟩ | ⟨i, c, r', hi, hr', rfl⟩ |
    ⟨i, a, r, r', q, b, -, hi, hadv, hmove, rfl⟩
  · refine ⟨hb.capacity, hb.targets, fun r hr => ?_⟩
    rcases List.mem_append.mp hr with hr | hr
    · exact hb.routines r hr
    · rw [List.mem_singleton.mp hr]
      cases c <;> exact trivial
  · refine ⟨hb.capacity, hb.targets, fun r hr => ?_⟩
    rcases List.mem_or_eq_of_mem_set hr with hr | rfl
    · exact hb.routines r hr
    · rcases hr' with ⟨-, rfl⟩ | ⟨-, rfl⟩ <;> exact trivial
  · have hbound := hb.routines r (List.mem_of_getElem? hi)
    obtain ⟨hlimits, -, -, hcap, htargets⟩ := hmove.frame
    have hlimits' : (q.setLocked b).limits = s.pool.limits := hlimits
    refine ⟨fun l => ?_, fun l => ?_, fun x hx => ?_⟩
    · show q.capacity l = (q.limits l).max
      rw [hcap, hlimits]
      exact hb.capacity l
    · show (q.limits l).min ≤ q.targets l ∧ q.targets l ≤ (q.limits l).max
      rw [hlimits]
      rcases htargets with htargets | ⟨lang, n, langs, rfl, htargets⟩
      · rw [htargets]
        exact hb.targets l
      · rw [htargets]
        by_cases hl : l = lang
        · subst hl
          rw [Function.update_self]
          exact hbound
        · rw [Function.update_of_ne hl]
          exact hb.targets l
    · show x.Bounded (q.setLocked b).limits
      rw [hlimits']
      rcases List.mem_or_eq_of_mem_set hx with hx | rfl
      · exact hb.routines x hx
      · exact hbound.advance hb.targets hadv

/-! ## Start-up -/

/-- What one container of `WarmUp` leaves as it was. -/
theorem warmUpOne_frame (p : ContainerPool) (lang id : String) :
    (warmUpOne lang p id).limits = p.limits ∧ (warmUpOne lang p id).targets = p.targets ∧
      (warmUpOne lang p id).globalCap = p.globalCap ∧
      (warmUpOne lang p id).languages = p.languages ∧
      ∀ l, (warmUpOne lang p id).capacity l = p.capacity l := by
  unfold warmUpOne
  rcases hsend : ContainerPool.send { p with issued := id :: p.issued } lang ⟨id, lang⟩ with _ | p'
  · simp only [hsend]
    exact ⟨rfl, rfl, rfl, rfl, fun _ => rfl⟩
  · simp only [hsend]
    obtain ⟨ch, ch', hch, rfl, hcap, -⟩ := send_eq_some hsend
    exact ⟨rfl, rfl, rfl, rfl, capacity_setChan hch hcap⟩

/-- `WarmUp` gives the language its limits, the least target and an empty
channel of `max` slots; its loop changes none of these. -/
theorem warmUp_frame (p : ContainerPool) (lang image : String) (min max : ℕ) (ids : List String) :
    (p.warmUp lang image min max ids).limits = Function.update p.limits lang ⟨min, max⟩ ∧
      (p.warmUp lang image min max ids).targets = Function.update p.targets lang min ∧
      (p.warmUp lang image min max ids).globalCap = p.globalCap ∧
      (p.warmUp lang image min max ids).languages = lang :: p.languages ∧
      ∀ l, (p.warmUp lang image min max ids).capacity l =
        if l = lang then max else p.capacity l := by
  unfold warmUp
  refine List.foldlRecOn (motive := fun q : ContainerPool =>
    q.limits = Function.update p.limits lang ⟨min, max⟩ ∧
      q.targets = Function.update p.targets lang min ∧ q.globalCap = p.globalCap ∧
      q.languages = lang :: p.languages ∧
      ∀ l, q.capacity l = if l = lang then max else p.capacity l) (ids.take min) _ ?_ ?_
  · refine ⟨rfl, rfl, rfl, rfl, fun l => ?_⟩
    unfold capacity
    by_cases hl : l = lang
    · subst hl
      simp only [Function.update_self, if_true, Channel.capacity_make]
    · simp only [Function.update_of_ne hl, if_neg hl]
  · intro q hq id _
    obtain ⟨h1, h2, h3, h4, h5⟩ := warmUpOne_frame q lang id
    rw [h1, h2, h3, h4]
    exact ⟨hq.1, hq.2.1, hq.2.2.1, hq.2.2.2.1, fun l => (h5 l).trans (hq.2.2.2.2 l)⟩

theorem Warmed.bounded {p : ContainerPool} (h : Warmed p) : Bounded ⟨p, []⟩ := by
  induction h with
  | new globalCap => exact ⟨fun _ => rfl, fun _ => ⟨le_rfl, le_rfl⟩, fun _ hr => nomatch hr⟩
  | @warmUp p _ lang image min max ids hmin _ _ _ ih =>
    obtain ⟨hlimits, htargets, -, -, hcap⟩ := warmUp_frame p lang image min max ids
    refine ⟨fun l => ?_, fun l => ?_, fun _ hr => nomatch hr⟩
    · show (p.warmUp lang image min max ids).capacity l = _
      rw [hcap, hlimits]
      by_cases hl : l = lang
      · subst hl
        rw [if_pos rfl, Function.update_self]
      · rw [if_neg hl, Function.update_of_ne hl]
        exact ih.capacity l
    · rw [hlimits, htargets]
      by_cases hl : l = lang
      · subst hl
        rw [Function.update_self, Function.update_self]
        exact ⟨le_rfl, hmin⟩
      · rw [Function.update_of_ne hl, Function.update_of_ne hl]
        exact ih.targets l

/-- **The targets stay inside the limits** in every run. -/
theorem reachable_bounded {C : PoolState → PoolAction → Prop} {s : PoolState}
    (h : system.ReachableVia C s) : Bounded s := by
  induction h with
  | @init s hinit =>
    obtain ⟨pool, routines⟩ := s
    obtain ⟨hwarm, rfl⟩ := hinit
    exact hwarm.bounded
  | step hs _ hstep ih => exact ih.step (reachable_sorted hs) hstep

/-- When the pool starts, a language's population is what waits in its channel. -/
theorem Warmed.population {p : ContainerPool} (h : Warmed p) (lang : String) :
    PoolState.population ⟨p, []⟩ lang = p.availCount lang := by
  show p.inUse.countP _ + p.availCount lang + 0 = _
  rw [h.inUse_eq_nil, List.countP_nil, Nat.zero_add, Nat.add_zero]

end Pool
