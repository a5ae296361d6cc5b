/-
# The autoscaler

The scaling loop of `pkg/pool/pool.go`: on every tick each language's acquire counters are
compared with those of the tick before, `decideScale` is asked, and a new target is stored
with the time of the change.

The order in which a tick goes through the languages is that of a Go map, any order; the
readings of the clock, the counters and the answers about headroom come from outside.

* `scale_cases` : what a tick can do to one language.
* `autoscaler_runs` : bounds, steps and cooldowns over every run.
-/
import JudgePlatform.Pool.ContainerPool
import JudgePlatform.Library.Binary64

namespace Pool

/-! ## The loop -/

instance : LT Binary64 := ⟨fun x y => x.lt y = true⟩

instance : DecidableLT Binary64 := fun x y => inferInstanceAs (Decidable (x.lt y = true))

abbrev Language := String

/-- `AutoscaleConfig`; durations and times are in nanoseconds. -/
structure AutoscaleConfig where
  upThresholdMs : Binary64
  downThresholdMs : Binary64
  upCooldown : ℤ
  downCooldown : ℤ

/-- `AcquireSnapshot`, the counters that the autoscaler reads. -/
structure AcquireSnapshot where
  count : Int64 := 0
  waitNanos : Int64 := 0
  timeoutCount : Int64 := 0

/-- What a tick reads. -/
structure Tick where
  now : ℤ
  snap : Language → AcquireSnapshot
  headroom : Language → Bool
  /-- the languages in the order of the map -/
  langs : List Language
  nodup : langs.Nodup

/-- What the pool and the loop know of a language.  A time that is zero is none. -/
structure LangState where
  target : ℕ
  prior : AcquireSnapshot := {}
  lastScaleUp : Option ℤ := none
  lastScaleDown : Option ℤ := none

/-- `Sub`, which does not go beyond the largest duration. -/
def sub (t u : ℤ) : ℤ := max (-2 ^ 63) (min (2 ^ 63 - 1) (t - u))

/-- Whether a cooldown is over. -/
def elapsed (now : ℤ) (last : Option ℤ) (cooldown : ℤ) : Bool :=
  match last with
  | none => true
  | some t => cooldown ≤ sub now t

/-- The average wait in the interval. -/
def avgWaitMs (cur prior : AcquireSnapshot) : Binary64 :=
  if cur.count - prior.count > 0 then
    ((Binary64.ofInt (cur.waitNanos - prior.waitNanos).toInt).div
      (.ofInt (cur.count - prior.count).toInt)).div (.ofInt 1000000)
  else .zero

/-- The timeouts in the interval. -/
def deltaTimeouts (cur prior : AcquireSnapshot) : ℤ :=
  (cur.timeoutCount - prior.timeoutCount).toInt

/-- The body of the loop for one language. -/
def scale (cfg : AutoscaleConfig) (limits : LangLimits) (now : ℤ) (cur : AcquireSnapshot)
    (headroom : Bool) (s : LangState) : LangState :=
  let decision := decideScale limits.min limits.max s.target (avgWaitMs cur s.prior)
    (cur.count - s.prior.count > 0) (deltaTimeouts cur s.prior)
    cfg.upThresholdMs cfg.downThresholdMs
    (elapsed now s.lastScaleUp cfg.upCooldown) (elapsed now s.lastScaleDown cfg.downCooldown)
    headroom
  if decision.newTarget ≠ s.target then
    { s with
      target := decision.newTarget
      lastScaleUp := if decision.action = .up then some now else s.lastScaleUp
      lastScaleDown := if decision.action = .down then some now else s.lastScaleDown }
  else s

/-- The loop over the languages; one without limits is passed over. -/
def loop (cfg : AutoscaleConfig) (limits : Language → Option LangLimits) (t : Tick)
    (langs : List Language) (s : Language → LangState) : Language → LangState :=
  langs.foldl (fun s lang =>
    match limits lang with
    | none => s
    | some l => Function.update s lang
        (scale cfg l t.now (t.snap lang) (t.headroom lang) (s lang))) s

/-- A tick; what it read is kept for the next one. -/
def tick (cfg : AutoscaleConfig) (limits : Language → Option LangLimits)
    (s : Language → LangState) (t : Tick) : Language → LangState :=
  fun lang => { loop cfg limits t t.langs s lang with prior := t.snap lang }

/-- Every language starts at the number of containers that `WarmUp` made. -/
def start (limits : Language → Option LangLimits) : Language → LangState :=
  fun lang => { target := ((limits lang).map LangLimits.min).getD 0 }

/-- The state after some ticks. -/
def run (cfg : AutoscaleConfig) (limits : Language → Option LangLimits) (ticks : List Tick) :
    Language → LangState :=
  ticks.foldl (tick cfg limits) (start limits)

/-! ## One tick -/

/-- The interval speaks for growing: a caller timed out, or the wait was long. -/
def UnderLoad (cfg : AutoscaleConfig) (cur prior : AcquireSnapshot) : Prop :=
  0 < deltaTimeouts cur prior ∨ cfg.upThresholdMs < avgWaitMs cur prior

/-- What a tick can do to a language: nothing, one container more after the cooldown for
that, or one less after the other cooldown and only if the interval does not speak for
growing. -/
inductive Changed (cfg : AutoscaleConfig) (l : LangLimits) (now : ℤ) (cur : AcquireSnapshot)
    (s s' : LangState) : Prop
  | hold (htarget : s'.target = s.target) (hup : s'.lastScaleUp = s.lastScaleUp)
    (hdown : s'.lastScaleDown = s.lastScaleDown)
  | up (htarget : s'.target = s.target + 1) (hmax : s.target < l.max)
    (helapsed : elapsed now s.lastScaleUp cfg.upCooldown = true)
    (hup : s'.lastScaleUp = some now) (hdown : s'.lastScaleDown = s.lastScaleDown)
  | down (htarget : s'.target + 1 = s.target) (hmin : l.min < s.target)
    (helapsed : elapsed now s.lastScaleDown cfg.downCooldown = true)
    (hload : ¬UnderLoad cfg cur s.prior)
    (hup : s'.lastScaleUp = s.lastScaleUp) (hdown : s'.lastScaleDown = some now)

variable {cfg : AutoscaleConfig} {l : LangLimits} {s : LangState}

variable (cfg) in
theorem scale_changed (hmin : l.min ≤ s.target) (hmax : s.target ≤ l.max) (now : ℤ)
    (cur : AcquireSnapshot) (headroom : Bool) :
    Changed cfg l now cur s (scale cfg l now cur headroom s) := by
  have hcases := decideScale_decided hmin hmax (avgWaitMs cur s.prior)
    (cur.count - s.prior.count > 0) (deltaTimeouts cur s.prior) cfg.upThresholdMs
    cfg.downThresholdMs (elapsed now s.lastScaleUp cfg.upCooldown)
    (elapsed now s.lastScaleDown cfg.downCooldown) headroom
  unfold scale
  rcases hcases with h | ⟨h, hlt, helapsed, -⟩ | ⟨h, hlt, helapsed, hload⟩
  · rw [h]
    simp only [ne_eq, not_true_eq_false, if_false]
    exact .hold rfl rfl rfl
  · rw [h]
    have hne : s.target + 1 ≠ s.target := by omega
    simp only [if_pos hne]
    exact .up rfl hlt helapsed rfl rfl
  · rw [h]
    have hne : s.target - 1 ≠ s.target := by omega
    simp only [if_pos hne]
    refine .down ?_ hlt helapsed hload rfl rfl
    show s.target - 1 + 1 = s.target
    omega

variable (cfg) in
/-- The loop treats each language once. -/
theorem loop_apply (limits : Language → Option LangLimits) (t : Tick) {langs : List Language}
    (hnodup : langs.Nodup) (s : Language → LangState) {lang : Language}
    (hl : limits lang = some l) :
    loop cfg limits t langs s lang =
      if lang ∈ langs then scale cfg l t.now (t.snap lang) (t.headroom lang) (s lang)
      else s lang := by
  unfold loop
  induction langs generalizing s with
  | nil => rfl
  | cons other langs ih =>
    obtain ⟨hother, hnodup⟩ := List.nodup_cons.mp hnodup
    rw [List.foldl_cons, ih hnodup]
    by_cases heq : other = lang
    · subst heq
      rw [if_neg hother, if_pos List.mem_cons_self, hl]
      simp only [Function.update_self]
    · have hkept : ∀ s' : LangState, Function.update s other s' lang = s lang := fun s' =>
        Function.update_of_ne (Ne.symm heq) s' s
      have hsame : (match limits other with
          | none => s
          | some l => Function.update s other
              (scale cfg l t.now (t.snap other) (t.headroom other) (s other))) lang = s lang := by
        cases limits other with
        | none => rfl
        | some l' => exact hkept _
      have hmem : lang ∈ other :: langs ↔ lang ∈ langs := by
        rw [List.mem_cons, or_iff_right (Ne.symm heq)]
      simp only [hsame, hmem]

variable {limits : Language → Option LangLimits} {lang : Language}

theorem tick_changed (hl : limits lang = some l) {s : Language → LangState} (t : Tick)
    (hmin : l.min ≤ (s lang).target) (hmax : (s lang).target ≤ l.max) :
    Changed cfg l t.now (t.snap lang) (s lang) (tick cfg limits s t lang) := by
  have hloop := loop_apply cfg limits t t.nodup s hl
  unfold tick
  rw [hloop]
  split_ifs with hmem
  · cases scale_changed cfg hmin hmax t.now (t.snap lang) (t.headroom lang) with
    | hold htarget hup hdown => exact .hold htarget hup hdown
    | up htarget hlt helapsed hup hdown => exact .up htarget hlt helapsed hup hdown
    | down htarget hlt helapsed hload hup hdown =>
      exact .down htarget hlt helapsed hload hup hdown
  · exact .hold rfl rfl rfl

/-- A change keeps the target inside its bounds. -/
theorem Changed.bounds {now : ℤ} {cur : AcquireSnapshot} {s' : LangState}
    (h : Changed cfg l now cur s s') (hmin : l.min ≤ s.target) (hmax : s.target ≤ l.max) :
    l.min ≤ s'.target ∧ s'.target ≤ l.max := by
  cases h with
  | hold htarget => omega
  | up htarget hlt => omega
  | down htarget hlt => omega

/-! ## Cooldowns -/

/-- **A cooldown keeps changes apart**: if every change waits until the cooldown since the
last one is over and is then the last one itself, any two changes are a cooldown apart. -/
theorem spaced {n : ℕ} {now : ℕ → ℤ} (last : ℕ → Option ℤ) (moved : ℕ → Prop) {cooldown : ℤ}
    (hclock : ∀ i j, i ≤ j → j < n → now i ≤ now j)
    (hmoved : ∀ k < n, moved k →
      elapsed (now k) (last k) cooldown = true ∧ last (k + 1) = some (now k))
    (hkept : ∀ k < n, ¬moved k → last (k + 1) = last k) {i j : ℕ} (hij : i < j) (hj : j < n)
    (hi : moved i) (hj' : moved j) : now i + cooldown ≤ now j := by
  -- the last change before `j` is the one at `i` or a later one
  have hlast : ∀ k, i + 1 ≤ k → k ≤ j → ∃ u, last k = some u ∧ now i ≤ u ∧ u ≤ now j := by
    intro k hik
    induction k, hik using Nat.le_induction with
    | base =>
      intro _
      exact ⟨now i, (hmoved i (by omega) hi).2, le_rfl, hclock i j hij.le hj⟩
    | succ k hik ih =>
      intro hkj
      by_cases hk : moved k
      · exact ⟨now k, (hmoved k (by omega) hk).2, hclock i k (by omega) (by omega),
          hclock k j (by omega) hj⟩
      · rw [hkept k (by omega) hk]
        exact ih (by omega)
  obtain ⟨u, hu, hiu, huj⟩ := hlast j hij le_rfl
  have helapsed := (hmoved j hj hj').1
  rw [hu, elapsed, decide_eq_true_eq, sub] at helapsed
  omega

/-! ## Runs -/

theorem run_take_succ (cfg : AutoscaleConfig) (limits : Language → Option LangLimits)
    {ticks : List Tick} {k : ℕ} (hk : k < ticks.length) :
    run cfg limits (ticks.take (k + 1)) = tick cfg limits (run cfg limits (ticks.take k)) ticks[k] := by
  unfold run
  rw [List.take_succ_eq_append_getElem hk, List.foldl_append]
  rfl

theorem run_bounds (hl : limits lang = some l) (hle : l.min ≤ l.max) (ticks : List Tick) :
    l.min ≤ (run cfg limits ticks lang).target ∧ (run cfg limits ticks lang).target ≤ l.max := by
  induction ticks using List.reverseRecOn with
  | nil =>
    have hstart : (run cfg limits [] lang).target = l.min := by
      show ((limits lang).map LangLimits.min).getD 0 = l.min
      rw [hl]
      rfl
    rw [hstart]
    exact ⟨le_rfl, hle⟩
  | append_singleton ticks t ih =>
    have hstep : run cfg limits (ticks ++ [t]) = tick cfg limits (run cfg limits ticks) t := by
      unfold run
      rw [List.foldl_append]
      rfl
    rw [hstep]
    exact (tick_changed hl t ih.1 ih.2).bounds ih.1 ih.2

/-- **The autoscaler over any run**: a target that starts at its minimum stays inside its
bounds and changes by at most one on a tick, any two increases are a cooldown apart, as are
any two decreases, and no tick under load lowers it. -/
theorem autoscaler_runs (cfg : AutoscaleConfig) (limits : Language → Option LangLimits)
    (lang : Language) (l : LangLimits) (hl : limits lang = some l) (hle : l.min ≤ l.max)
    (ticks : List Tick) (hclock : ticks.Pairwise fun t u => t.now ≤ u.now) :
    let s := fun k => run cfg limits (ticks.take k) lang
    (∀ k, l.min ≤ (s k).target ∧ (s k).target ≤ l.max) ∧
      (∀ k < ticks.length,
        (s (k + 1)).target ≤ (s k).target + 1 ∧ (s k).target ≤ (s (k + 1)).target + 1) ∧
      (∀ i j (hij : i < j) (hj : j < ticks.length), (s i).target < (s (i + 1)).target →
        (s j).target < (s (j + 1)).target → ticks[i].now + cfg.upCooldown ≤ ticks[j].now) ∧
      (∀ i j (hij : i < j) (hj : j < ticks.length), (s (i + 1)).target < (s i).target →
        (s (j + 1)).target < (s j).target → ticks[i].now + cfg.downCooldown ≤ ticks[j].now) ∧
      (∀ k (hk : k < ticks.length), UnderLoad cfg (ticks[k].snap lang) (s k).prior →
        (s k).target ≤ (s (k + 1)).target) := by
  intro s
  have hbounds : ∀ k, l.min ≤ (s k).target ∧ (s k).target ≤ l.max := fun k =>
    run_bounds hl hle (ticks.take k)
  have hchanged : ∀ k (hk : k < ticks.length),
      Changed cfg l ticks[k].now (ticks[k].snap lang) (s k) (s (k + 1)) := by
    intro k hk
    have hnext : s (k + 1) = tick cfg limits (run cfg limits (ticks.take k)) ticks[k] lang :=
      congrFun (run_take_succ cfg limits hk) lang
    rw [hnext]
    exact tick_changed hl ticks[k] (hbounds k).1 (hbounds k).2
  let now : ℕ → ℤ := fun k => (ticks[k]?.map Tick.now).getD 0
  have hnow : ∀ k (hk : k < ticks.length), now k = ticks[k].now := by
    intro k hk
    show (ticks[k]?.map Tick.now).getD 0 = _
    rw [List.getElem?_eq_getElem hk]
    rfl
  have hmono : ∀ i j, i ≤ j → j < ticks.length → now i ≤ now j := by
    intro i j hij hj
    rw [hnow i (by omega), hnow j hj]
    rcases hij.eq_or_lt with rfl | hlt
    · exact le_rfl
    · exact List.pairwise_iff_getElem.mp hclock i j (by omega) hj hlt
  refine ⟨hbounds, fun k hk => ?_, fun i j hij hj hi hj' => ?_, fun i j hij hj hi hj' => ?_,
    fun k hk hload => ?_⟩
  · cases hchanged k hk with
    | hold htarget => omega
    | up htarget => omega
    | down htarget => omega
  · rw [← hnow i (by omega), ← hnow j hj]
    refine spaced (fun k => (s k).lastScaleUp) (fun k => (s k).target < (s (k + 1)).target)
      hmono (fun k hk hup => ?_) (fun k hk hnot => ?_) hij hj hi hj'
    · cases hchanged k hk with
      | hold htarget => omega
      | up _ _ helapsed hlast =>
        rw [hnow k hk]
        exact ⟨helapsed, hlast⟩
      | down htarget => omega
    · cases hchanged k hk with
      | hold _ hlast => exact hlast
      | up htarget => omega
      | down _ _ _ _ hlast => exact hlast
  · rw [← hnow i (by omega), ← hnow j hj]
    refine spaced (fun k => (s k).lastScaleDown) (fun k => (s (k + 1)).target < (s k).target)
      hmono (fun k hk hdown => ?_) (fun k hk hnot => ?_) hij hj hi hj'
    · cases hchanged k hk with
      | hold htarget => omega
      | up htarget => omega
      | down _ _ helapsed _ _ hlast =>
        rw [hnow k hk]
        exact ⟨helapsed, hlast⟩
    · cases hchanged k hk with
      | hold _ _ hlast => exact hlast
      | up _ _ _ _ hlast => exact hlast
      | down htarget => omega
  · cases hchanged k hk with
    | hold htarget => omega
    | up htarget => omega
    | down htarget _ _ hnot => exact absurd hload hnot

/-- Two ticks with a timeout each, a second apart: the target grows twice. -/
theorem autoscaler_runs_timeouts :
    let cfg : AutoscaleConfig :=
      { upThresholdMs := .ofInt 500, downThresholdMs := .ofInt 50, upCooldown := 1000000000,
        downCooldown := 2000000000 }
    let tickAt : ℤ → Int64 → Tick := fun now n =>
      { now := now, snap := fun _ => { count := n, timeoutCount := n }, headroom := fun _ => true,
        langs := ["python"], nodup := List.nodup_singleton _ }
    let ticks := [tickAt 5000000000 1, tickAt 6000000000 2]
    (1 ≤ (run cfg (fun _ => some ⟨1, 4⟩) ticks "python").target ∧
        (run cfg (fun _ => some ⟨1, 4⟩) ticks "python").target ≤ 4) ∧
      (run cfg (fun _ => some ⟨1, 4⟩) ticks "python").target = 3 := by
  intro cfg tickAt ticks
  refine ⟨(autoscaler_runs cfg (fun _ => some ⟨1, 4⟩) "python" ⟨1, 4⟩ rfl (by decide) ticks ?_).1 2,
    ?_⟩
  · simp [ticks, tickAt]
  · decide +kernel

end Pool
