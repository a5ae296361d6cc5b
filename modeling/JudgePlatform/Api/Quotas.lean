/-
# Fixed-window quotas

`checkFixedWindowQuota` counts the checks of one scope, a college or a student, in
Redis, with one counter for each window of the clock.  The first check of a window
lets the counter expire, in a step of its own.

* `Redis` : the counters with their times of expiry, the clock, and the checks in the
  order of their increments, a history variable.
* `quota_windows` : in every interleaving of checks the counter of the open window is
  the number of its checks, so that the first `limit` of them are allowed and no others.
-/
import JudgePlatform.Library.Program

namespace Quota

/-! ## Redis -/

/-- `${keyPrefix}:${scopeId}:${windowStart}` -/
structure Key where
  keyPrefix : String
  scopeId : String
  windowStart : ℕ
  deriving DecidableEq

structure Counter where
  count : ℕ
  /-- in milliseconds, like the clock -/
  expiresAt : Option ℕ

/-- An increment: the time of it, and the count that it gave. -/
structure Check where
  key : Key
  now : ℕ
  count : ℕ

structure Redis where
  clock : ℕ
  counters : Key → Option Counter
  checks : List Check

/-- The counter under a key, unless it has expired. -/
def Redis.live (s : Redis) (k : Key) : Option Counter :=
  (s.counters k).filter fun c => c.expiresAt.all fun t => s.clock < t

inductive Request where
  /-- `Date.now()` and the `INCR` of the key for that time, in one step -/
  | incr (key : ℕ → Key)
  | expire (key : Key) (seconds : ℕ)
  /-- time passes -/
  | wait (ms : ℕ)

/-- An increment is answered with the time and the count. -/
def Reply : Request → Type
  | .incr _ => ℕ × ℕ
  | _ => Unit

/-- `INCR` begins a counter that is not there, and keeps the expiry of one that is. -/
def Redis.incr (s : Redis) (k : Key) : Counter :=
  match s.live k with
  | some c => { c with count := c.count + 1 }
  | none => ⟨1, none⟩

def Redis.put (s : Redis) (k : Key) (c : Counter) : Redis :=
  { s with counters := Function.update s.counters k (some c) }

def Redis.answer (s : Redis) : (r : Request) → Reply r × Redis
  | .incr key =>
    let k := key s.clock
    let c := s.incr k
    ((s.clock, c.count), { s.put k c with checks := s.checks ++ [⟨k, s.clock, c.count⟩] })
  | .expire k seconds =>
    match s.live k with
    | some c => ((), s.put k { c with expiresAt := some (s.clock + 1000 * seconds) })
    | none => ((), s)
  | .wait ms => ((), { s with clock := s.clock + ms })

/-! ## The check -/

structure Answer where
  allowed : Bool
  limit : Option ℕ := none
  count : Option ℕ := none
  windowSeconds : Option ℕ := none

/-- `Math.floor(Date.now() / 1000 / windowSeconds)`.  A quotient that is not whole misses the
next whole number by a millisecond's share of the window or more, much more than doubles
round it by. -/
def windowStart (now windowSeconds : ℕ) : ℕ := now / 1000 / windowSeconds

/-- One request to Redis. -/
abbrev ask {ε : Type} (r : Request) : Program Reply ε (Reply r) := Program.call r

/-- A failure of Redis lets the check pass. -/
def checkFixedWindowQuota {ε : Type} (keyPrefix scopeId : String) (limit windowSeconds : ℕ) :
    Program Reply ε Answer :=
  if scopeId = "" then pure { allowed := true }
  else
    let key : ℕ → Key := fun now => ⟨keyPrefix, scopeId, windowStart now windowSeconds⟩
    tryCatch
      (do
        let x : ℕ × ℕ ← ask (.incr key)
        let count := x.2
        if count = 1 then
          let _ ← ask (.expire (key x.1) windowSeconds)
        return { allowed := count ≤ limit, limit, count, windowSeconds })
      fun _ => pure { allowed := true }

/-! ## Checks side by side -/

/-- A scope with its limit; a window is a positive number of seconds. -/
structure Scope where
  keyPrefix : String
  scopeId : String
  limit : ℕ
  windowSeconds : ℕ
  named : scopeId ≠ ""
  pos : 0 < windowSeconds

namespace Scope

variable (q : Scope)

def key (w : ℕ) : Key := ⟨q.keyPrefix, q.scopeId, w⟩

/-- The window that a time is in. -/
def window (now : ℕ) : ℕ := windowStart now q.windowSeconds

def windowMs : ℕ := 1000 * q.windowSeconds

/-- What a check answers when it has counted. -/
def answer (count : ℕ) : Answer :=
  { allowed := count ≤ q.limit, limit := q.limit, count, windowSeconds := q.windowSeconds }

end Scope

inductive Operation where
  | check
  | wait (ms : ℕ)

def Operation.program (q : Scope) : Operation → Program Reply Empty (Option Answer)
  | .check => some <$> checkFixedWindowQuota q.keyPrefix q.scopeId q.limit q.windowSeconds
  | .wait ms => (fun _ => none) <$> ask (.wait ms)

/-- A check has seen the time and the count of its increment. -/
def look (v : Option (ℕ × ℕ)) : (r : Request) → Reply r → Option (ℕ × ℕ)
  | .incr _, (x : ℕ × ℕ) => some x
  | _, _ => v

/-- Redis does not fail: no error is there to answer with. -/
def service (q : Scope) :
    Service Operation Redis Unit (Option (ℕ × ℕ)) Reply Empty (Option Answer) where
  program := Operation.program q
  serve := fun _ s r => (.ok (s.answer r).1, (s.answer r).2)
  blank := none
  look := look

abbrev Config := Service.Config Operation Redis (Option (ℕ × ℕ)) Reply Empty (Option Answer)

/-- Nothing was counted yet. -/
def Unused (s : Redis) : Prop := (∀ k, s.counters k = none) ∧ s.checks = []

def system (q : Scope) := (service q).system Unused

/-! ### What a check asks -/

/-- A check increments once; only if it counted one it asks for an expiry, of the key that
it incremented. -/
def Asks (q : Scope) : Option (ℕ × ℕ) → Request → Prop
  | v, .incr key => v = none ∧ key = fun now => q.key (q.window now)
  | v, .expire k seconds => seconds = q.windowSeconds ∧ ∃ now, v = some (now, 1) ∧ k = q.key (q.window now)
  | _, .wait _ => True

/-- A check answers by its count. -/
def Returns (q : Scope) (op : Operation) (v : Option (ℕ × ℕ))
    (x : Except Empty (Option Answer)) : Prop :=
  match op with
  | .check => ∃ now count, v = some (now, count) ∧ x = .ok (some (q.answer count))
  | .wait _ => v = none

theorem program_obeys (q : Scope) (op : Operation) :
    ((service q).program op).Obeys (service q).look (Asks q) (Returns q op) (service q).blank := by
  cases op with
  | wait ms => exact Program.Obeys.map (Program.Obeys.call trivial (fun _ => rfl) fun e => e.elim)
  | check =>
    show Program.Obeys look (Asks q) (Returns q .check) none
      (some <$> checkFixedWindowQuota q.keyPrefix q.scopeId q.limit q.windowSeconds)
    refine Program.Obeys.map ?_
    unfold checkFixedWindowQuota
    rw [if_neg q.named]
    have hbody : ∀ t : Program Reply Empty Answer,
        t.Obeys look (Asks q) (fun v x => Returns q .check v (x.map some)) none →
        (tryCatch t fun _ => pure { allowed := true }).Obeys look (Asks q)
          (fun v x => Returns q .check v (x.map some)) none :=
      fun t ht => ht.tryCatch (fun _ _ h => h) fun _ e => e.elim
    refine hbody _ (Program.Obeys.call_bind ⟨rfl, rfl⟩ (fun x => ?_) fun e => e.elim)
    obtain ⟨now, count⟩ := x
    by_cases hone : count = 1
    · subst hone
      exact Program.Obeys.call_bind ⟨rfl, now, rfl, rfl⟩ (fun _ => ⟨now, 1, rfl, rfl⟩)
        fun e => e.elim
    · show Program.Obeys _ _ _ _ (if count = 1 then _ else _)
      rw [if_neg hone]
      exact ⟨now, count, rfl, rfl⟩

/-! ## Windows of the clock -/

namespace Scope

variable (q : Scope)

theorem window_eq (now : ℕ) : q.window now = now / q.windowMs := Nat.div_div_eq_div_mul _ _ _

theorem windowMs_pos : 0 < q.windowMs := Nat.mul_pos (by decide) q.pos

theorem window_mono {a b : ℕ} (h : a ≤ b) : q.window a ≤ q.window b := by
  rw [q.window_eq, q.window_eq]
  exact Nat.div_le_div_right h

/-- A window ends before the next one begins. -/
theorem lt_window_end (now : ℕ) : now < (q.window now + 1) * q.windowMs := by
  rw [q.window_eq, Nat.mul_comm]
  exact Nat.lt_mul_div_succ now q.windowMs_pos

/-- The end of a window is within one length of it from any of its times. -/
theorem window_end_le (now : ℕ) : (q.window now + 1) * q.windowMs ≤ now + q.windowMs := by
  rw [q.window_eq, Nat.add_mul, Nat.one_mul]
  exact Nat.add_le_add_right (Nat.div_mul_le_self now q.windowMs) _

theorem window_add (now : ℕ) : q.window (now + q.windowMs) = q.window now + 1 := by
  rw [q.window_eq, q.window_eq, Nat.add_div_right _ q.windowMs_pos]

theorem key_injective {v w : ℕ} (h : q.key v = q.key w) : v = w := (Key.mk.inj h).2.2

end Scope

/-! ## The counters -/

/-- The checks of a window, in the order of their increments. -/
def Redis.checksIn (s : Redis) (q : Scope) (w : ℕ) : List Check :=
  s.checks.filter fun e => e.key = q.key w

/-- The counter of a window counts its checks, and does not expire before its end. -/
structure Counts (q : Scope) (s : Redis) (w : ℕ) : Prop where
  counted : (s.checksIn q w).map Check.count = List.range' 1 (s.checksIn q w).length
  absent : s.checksIn q w = [] → s.counters (q.key w) = none
  present : s.checksIn q w ≠ [] → ∃ c, s.counters (q.key w) = some c ∧
    c.count = (s.checksIn q w).length ∧
    ∀ t, c.expiresAt = some t → (w + 1) * q.windowMs ≤ t

structure RedisInv (q : Scope) (s : Redis) : Prop where
  keys : ∀ e ∈ s.checks, e.key = q.key (q.window e.now) ∧ e.now ≤ s.clock
  counts : ∀ w, Counts q s w

section Counters

variable {q : Scope} {s : Redis}

/-- A counter is there as long as its window is open. -/
theorem Counts.live {w : ℕ} (h : Counts q s w) (hchecks : s.checksIn q w ≠ [])
    (hopen : s.clock < (w + 1) * q.windowMs) :
    ∃ c, s.live (q.key w) = some c ∧ c.count = (s.checksIn q w).length ∧
      ∀ t, c.expiresAt = some t → (w + 1) * q.windowMs ≤ t := by
  obtain ⟨c, hc, hcount, hexpires⟩ := h.present hchecks
  refine ⟨c, ?_, hcount, hexpires⟩
  unfold Redis.live
  rw [hc, Option.filter_eq_some_iff]
  refine ⟨rfl, ?_⟩
  cases ht : c.expiresAt with
  | none => rfl
  | some t =>
    rw [Option.all_some, decide_eq_true_eq]
    exact Nat.lt_of_lt_of_le hopen (hexpires t ht)

/-- The counter after the next increment in the open window. -/
theorem Counts.incr {w : ℕ} (h : Counts q s w) (hopen : s.clock < (w + 1) * q.windowMs) :
    (s.incr (q.key w)).count = (s.checksIn q w).length + 1 ∧
      ∀ t, (s.incr (q.key w)).expiresAt = some t → (w + 1) * q.windowMs ≤ t := by
  unfold Redis.incr
  by_cases hchecks : s.checksIn q w = []
  · have hlive : s.live (q.key w) = none := by
      unfold Redis.live
      rw [h.absent hchecks]
      rfl
    rw [hlive, hchecks]
    exact ⟨rfl, fun t ht => by cases ht⟩
  · obtain ⟨c, hc, hcount, hexpires⟩ := h.live hchecks hopen
    rw [hc]
    exact ⟨congrArg (· + 1) hcount, hexpires⟩

/-- **An increment keeps the counters.** -/
theorem RedisInv.incr (h : RedisInv q s) :
    RedisInv q (s.answer (.incr fun now => q.key (q.window now))).2 := by
  let k := q.key (q.window s.clock)
  have hopen : s.clock < (q.window s.clock + 1) * q.windowMs := q.lt_window_end _
  refine ⟨fun e he => ?_, fun w => ?_⟩
  · rcases List.mem_append.mp he with he | he
    · exact h.keys e he
    · rw [List.mem_singleton.mp he]
      exact ⟨rfl, le_refl s.clock⟩
  · by_cases hw : w = q.window s.clock
    · subst hw
      obtain ⟨hcount, hexpires⟩ := (h.counts (q.window s.clock)).incr hopen
      have hchecks : (s.answer (.incr fun now => q.key (q.window now))).2.checksIn q
          (q.window s.clock) = s.checksIn q (q.window s.clock) ++
            [⟨k, s.clock, (s.incr k).count⟩] := by
        show List.filter _ (s.checks ++ _) = _
        rw [List.filter_append]
        unfold Redis.checksIn
        simp [k]
      refine ⟨?_, fun hnil => ?_, fun _ => ⟨s.incr k, ?_, ?_, hexpires⟩⟩
      · rw [hchecks, List.map_append, List.length_append, (h.counts _).counted,
          List.length_singleton, List.range'_1_concat, List.map_singleton]
        show _ ++ [(s.incr k).count] = _
        rw [hcount, Nat.add_comm]
      · rw [hchecks] at hnil
        exact absurd hnil (by simp)
      · show Function.update s.counters k (some (s.incr k)) k = _
        rw [Function.update_self]
      · rw [hchecks, List.length_append, List.length_singleton]
        exact hcount
    · have hkey : q.key w ≠ k := fun heq => hw (q.key_injective heq)
      have hchecks : (s.answer (.incr fun now => q.key (q.window now))).2.checksIn q w =
          s.checksIn q w := by
        show List.filter _ (s.checks ++ _) = _
        rw [List.filter_append]
        unfold Redis.checksIn
        simp [Ne.symm hkey, k]
      have hcounter : (s.answer (.incr fun now => q.key (q.window now))).2.counters (q.key w) =
          s.counters (q.key w) := by
        show Function.update s.counters k _ (q.key w) = _
        rw [Function.update_of_ne hkey]
      obtain ⟨hcounted, habsent, hpresent⟩ := h.counts w
      constructor
      · rw [hchecks]
        exact hcounted
      · rw [hchecks, hcounter]
        exact habsent
      · rw [hchecks, hcounter]
        exact hpresent

/-- **An expiry keeps the counters**, when it is asked for after its window began. -/
theorem RedisInv.expire (h : RedisInv q s) {now : ℕ} (hnow : now ≤ s.clock) :
    RedisInv q (s.answer (.expire (q.key (q.window now)) q.windowSeconds)).2 := by
  let k := q.key (q.window now)
  show RedisInv q (match s.live k with
    | some c => ((), s.put k { c with expiresAt := some (s.clock + 1000 * q.windowSeconds) })
    | none => ((), s)).2
  cases hlive : s.live k with
  | none => exact h
  | some c =>
    refine ⟨h.keys, fun w => ?_⟩
    obtain ⟨hcounted, habsent, hpresent⟩ := h.counts w
    have hc : s.counters k = some c := (Option.filter_eq_some_iff.mp hlive).1
    by_cases hw : q.key w = k
    · obtain rfl : w = q.window now := q.key_injective hw
      refine ⟨hcounted, fun hnil => ?_, fun hchecks => ?_⟩
      · rw [habsent hnil] at hc
        cases hc
      · obtain ⟨c', hc', hcount, -⟩ := hpresent hchecks
        obtain rfl : c' = c := Option.some.inj (hc'.symm.trans hc)
        refine ⟨_, Function.update_self .., hcount, fun t ht => ?_⟩
        rw [← Option.some.inj ht]
        calc (q.window now + 1) * q.windowMs ≤ now + q.windowMs := q.window_end_le now
          _ ≤ s.clock + q.windowMs := Nat.add_le_add_right hnow _
    · have hcounter : (s.put k { c with expiresAt := some (s.clock + 1000 * q.windowSeconds) }).counters
          (q.key w) = s.counters (q.key w) := Function.update_of_ne hw ..
      refine ⟨hcounted, fun hnil => ?_, fun hchecks => ?_⟩
      · rw [hcounter]
        exact habsent hnil
      · rw [hcounter]
        exact hpresent hchecks

/-- Time passes: the counters of closed windows may expire. -/
theorem RedisInv.wait (h : RedisInv q s) (ms : ℕ) : RedisInv q (s.answer (.wait ms)).2 :=
  ⟨fun e he => ⟨(h.keys e he).1, (h.keys e he).2.trans (Nat.le_add_right _ _)⟩,
    fun w => ⟨(h.counts w).counted, (h.counts w).absent, (h.counts w).present⟩⟩

end Counters

/-! ## Every interleaving -/

/-- The time and the count that a call has seen. -/
def counted (c : Service.Call Operation (Option (ℕ × ℕ)) Reply Empty (Option Answer)) :
    Option (ℕ × ℕ) := c.view

structure QuotaInv (q : Scope) (s : Config) : Prop where
  redis : RedisInv q s.store
  seen : ∀ c ∈ s.calls, ∀ x, c.view = some x → x.1 ≤ s.store.clock
  calls : (s.calls.filterMap counted).Perm (s.store.checks.map fun e => (e.now, e.count))

theorem clock_le_answer (s : Redis) (r : Request) : s.clock ≤ (s.answer r).2.clock := by
  cases r with
  | incr key => exact le_refl _
  | expire k seconds =>
    show s.clock ≤ (match s.live k with
      | some c => ((), s.put k { c with expiresAt := some (s.clock + 1000 * seconds) })
      | none => ((), s)).2.clock
    split <;> exact le_refl _
  | wait ms => exact Nat.le_add_right _ _

theorem checks_answer (s : Redis) {r : Request} (hr : ∀ key, r ≠ .incr key) :
    (s.answer r).2.checks = s.checks := by
  cases r with
  | incr key => exact absurd rfl (hr key)
  | expire k seconds =>
    show (match s.live k with
      | some c => ((), s.put k { c with expiresAt := some (s.clock + 1000 * seconds) })
      | none => ((), s)).2.checks = s.checks
    split <;> rfl
  | wait ms => rfl

/-- **One step keeps the invariant.** -/
theorem QuotaInv.step {q : Scope} {s s' : Config} {act : Service.Action Operation Unit}
    (hobeys : Service.CallsObey (service q) (fun _ => Asks q) (Returns q) s) (hinv : QuotaInv q s)
    (hstep : (service q).step s act = some s') : QuotaInv q s' := by
  obtain ⟨op, -, rfl⟩ | ⟨i, c, op, v, r, next, -, hi, rfl⟩ := Service.step_cases hstep
  · refine ⟨hinv.redis, fun c hc x hx => ?_, ?_⟩
    · rcases List.mem_append.mp hc with hc | hc
      · exact hinv.seen c hc x hx
      · rw [List.mem_singleton.mp hc] at hx
        cases hx
    · show (List.filterMap counted (s.calls ++ _)).Perm _
      rw [List.filterMap_append]
      show (_ ++ []).Perm _
      rw [List.append_nil]
      exact hinv.calls
  · have hasks : Asks q v r := hobeys.request hi
    show QuotaInv q ⟨(s.store.answer r).2, s.calls.set i
      ⟨op, look v r (s.store.answer r).1, next (.ok (s.store.answer r).1)⟩⟩
    have hclock := clock_le_answer s.store r
    have hother : ∀ c ∈ s.calls, ∀ x, c.view = some x → x.1 ≤ (s.store.answer r).2.clock :=
      fun c hc x hx => (hinv.seen c hc x hx).trans hclock
    have hmem := List.mem_of_getElem? hi
    -- a request without a count leaves what the call has seen
    have hquiet : look v r (s.store.answer r).1 = v → (∀ key, r ≠ .incr key) →
        (∀ c ∈ s.calls.set i ⟨op, look v r (s.store.answer r).1, next (.ok (s.store.answer r).1)⟩,
          ∀ x, c.view = some x → x.1 ≤ (s.store.answer r).2.clock) ∧
        ((s.calls.set i ⟨op, look v r (s.store.answer r).1,
          next (.ok (s.store.answer r).1)⟩).filterMap counted).Perm
            ((s.store.answer r).2.checks.map fun e => (e.now, e.count)) := by
      intro hview hr
      constructor
      · intro c hc x hx
        rcases List.mem_or_eq_of_mem_set hc with hc | rfl
        · exact hother c hc x hx
        · exact hother _ hmem x (hview ▸ hx)
      · rw [checks_answer s.store hr, List.filterMap_set_of_eq hi hview]
        exact hinv.calls
    cases r with
    | incr key =>
      obtain ⟨rfl, rfl⟩ := hasks
      refine ⟨hinv.redis.incr, fun c hc x hx => ?_, ?_⟩
      · rcases List.mem_or_eq_of_mem_set hc with hc | rfl
        · exact hother c hc x hx
        · cases hx
          exact le_refl _
      · refine (List.filterMap_set_perm (f := counted) hi rfl rfl).trans ?_
        show (_ :: _).Perm (List.map _ (s.store.checks ++ [_]))
        rw [List.map_append]
        exact (hinv.calls.cons _).trans (List.perm_append_singleton _ _).symm
    | expire k seconds =>
      obtain ⟨rfl, now, rfl, rfl⟩ := hasks
      obtain ⟨hseen, hcalls⟩ := hquiet rfl nofun
      exact ⟨hinv.redis.expire (hinv.seen _ hmem _ rfl), hseen, hcalls⟩
    | wait ms =>
      obtain ⟨hseen, hcalls⟩ := hquiet rfl nofun
      exact ⟨hinv.redis.wait ms, hseen, hcalls⟩

theorem reachable_quotaInv {q : Scope} {s : Config} (hs : (system q).Reachable s) :
    QuotaInv q s := by
  induction hs with
  | init h =>
    obtain ⟨⟨hcounters, hchecks⟩, hcalls⟩ := h
    refine ⟨⟨fun e he => ?_, fun w => ⟨?_, fun _ => hcounters _, fun h => ?_⟩⟩, fun c hc => ?_, ?_⟩
    · rw [hchecks] at he
      cases he
    · unfold Redis.checksIn
      rw [hchecks]
      rfl
    · unfold Redis.checksIn at h
      rw [hchecks] at h
      exact absurd rfl h
    · rw [hcalls] at hc
      cases hc
    · rw [hcalls, hchecks]
      exact List.Perm.nil
  | step hs _ hstep ih => exact ih.step (Service.reachable_callsObey (program_obeys q) hs) hstep

/-! ## What is allowed -/

/-- The verdict of a check. -/
def Check.allowed (q : Scope) (e : Check) : Bool := (q.answer e.count).allowed

/-- The counts from one on that a limit allows are the first ones. -/
theorem map_le_range' (limit n : ℕ) :
    (List.range' 1 n).map (fun count => decide (count ≤ limit)) =
      List.replicate (min limit n) true ++ List.replicate (n - limit) false := by
  induction n with
  | zero => simp
  | succ n ih =>
    rw [List.range'_1_concat, List.map_append, ih, List.map_singleton]
    by_cases h : 1 + n ≤ limit
    · have hmin : min limit (n + 1) = min limit n + 1 := by omega
      have hsub : n - limit = 0 := by omega
      have hsub' : n + 1 - limit = 0 := by omega
      rw [decide_eq_true h, hmin, hsub, hsub', List.replicate_succ']
      simp
    · have hmin : min limit (n + 1) = min limit n := by omega
      have hsub : n + 1 - limit = (n - limit) + 1 := by omega
      rw [decide_eq_false h, hmin, hsub, List.replicate_succ', List.append_assoc]

theorem countP_le_add {α : Type} {p q r : α → Bool} (l : List α)
    (h : ∀ x ∈ l, p x = true → q x = true ∨ r x = true) :
    l.countP p ≤ l.countP q + l.countP r := by
  induction l with
  | nil => exact le_refl 0
  | cons x l ih =>
    have hl := ih fun y hy => h y (List.mem_cons_of_mem x hy)
    have hx := h x List.mem_cons_self
    rw [List.countP_cons, List.countP_cons, List.countP_cons]
    by_cases hp : p x = true
    · rcases hx hp with hq | hr
      · rw [if_pos hp, if_pos hq]
        omega
      · rw [if_pos hp, if_pos hr]
        omega
    · rw [if_neg hp]
      omega

section Bounds

variable {q : Scope} {s : Redis}

/-- The checks of a window are those made in its time. -/
theorem RedisInv.checksIn_eq (h : RedisInv q s) (w : ℕ) :
    s.checks.filter (fun e => q.window e.now = w) = s.checksIn q w := by
  unfold Redis.checksIn
  apply List.filter_congr
  intro e he
  rw [(h.keys e he).1, decide_eq_decide]
  exact ⟨fun hw => by rw [hw], fun hkey => q.key_injective hkey⟩

theorem RedisInv.allowed (h : RedisInv q s) (w : ℕ) :
    (s.checksIn q w).map (Check.allowed q) =
      List.replicate (min q.limit (s.checksIn q w).length) true ++
        List.replicate ((s.checksIn q w).length - q.limit) false := by
  have hmap : (s.checksIn q w).map (Check.allowed q) =
      ((s.checksIn q w).map Check.count).map fun count => decide (count ≤ q.limit) := by
    rw [List.map_map]
    rfl
  rw [hmap, (h.counts w).counted, map_le_range']

/-- At most `limit` checks of a window are allowed. -/
theorem RedisInv.allowed_le (h : RedisInv q s) (w : ℕ) :
    s.checks.countP (fun e => decide (q.window e.now = w) && e.allowed q) ≤ q.limit := by
  have hcount : s.checks.countP (fun e => decide (q.window e.now = w) && e.allowed q) =
      ((s.checksIn q w).map (Check.allowed q)).countP id := by
    rw [← h.checksIn_eq, List.countP_map, List.countP_filter]
    congr 1
    funext e
    exact Bool.and_comm _ _
  rw [hcount, h.allowed, List.countP_append, List.countP_replicate, List.countP_replicate]
  simp

/-- **At most twice the limit in the length of a window.** -/
theorem RedisInv.allowed_interval (h : RedisInv q s) {a b : ℕ} (hab : b ≤ a + q.windowMs) :
    s.checks.countP (fun e => e.allowed q && decide (a ≤ e.now ∧ e.now ≤ b)) ≤ 2 * q.limit := by
  have hsplit := countP_le_add (p := fun e => e.allowed q && decide (a ≤ e.now ∧ e.now ≤ b))
    (q := fun e => decide (q.window e.now = q.window a) && e.allowed q)
    (r := fun e => decide (q.window e.now = q.window a + 1) && e.allowed q) s.checks ?_
  · have hfirst := h.allowed_le (q.window a)
    have hsecond := h.allowed_le (q.window a + 1)
    omega
  · intro e _ he
    rw [Bool.and_eq_true, decide_eq_true_eq] at he
    obtain ⟨hallowed, hle, hge⟩ := he
    have hlow : q.window a ≤ q.window e.now := q.window_mono hle
    have hhigh : q.window e.now ≤ q.window a + 1 := by
      rw [← q.window_add]
      exact q.window_mono (hge.trans hab)
    rcases Nat.lt_or_ge (q.window a) (q.window e.now) with hlt | hge
    · refine Or.inr ?_
      rw [Bool.and_eq_true, decide_eq_true_eq]
      exact ⟨Nat.le_antisymm hhigh hlt, hallowed⟩
    · refine Or.inl ?_
      rw [Bool.and_eq_true, decide_eq_true_eq]
      exact ⟨Nat.le_antisymm hge hlow, hallowed⟩

end Bounds

/-- The checks whose time is in a window. -/
def Redis.checksAt (s : Redis) (q : Scope) (w : ℕ) : List Check :=
  s.checks.filter fun e => q.window e.now = w

/-- **The quota of every window of the clock**, in every interleaving of checks:
* of the checks of a window the first `limit` are allowed, and no others;
* in no interval of the length of a window are more than twice as many allowed;
* while a window is open its counter is there, and is the number of its checks;
* the counted checks are those of the calls, and a call answers by its count. -/
theorem quota_windows {q : Scope} {s : Config} (hs : (system q).Reachable s) :
    (∀ w, (s.store.checksAt q w).map (Check.allowed q) =
      List.replicate (min q.limit (s.store.checksAt q w).length) true ++
        List.replicate ((s.store.checksAt q w).length - q.limit) false) ∧
    (∀ a b, b ≤ a + q.windowMs →
      s.store.checks.countP (fun e => e.allowed q && decide (a ≤ e.now ∧ e.now ≤ b)) ≤
        2 * q.limit) ∧
    (∀ w, w = q.window s.store.clock → s.store.checksAt q w ≠ [] →
      ∃ c, s.store.live (q.key w) = some c ∧ c.count = (s.store.checksAt q w).length) ∧
    (s.calls.filterMap counted).Perm (s.store.checks.map fun e => (e.now, e.count)) ∧
    ∀ c ∈ s.calls, c.op = .check → ∀ x, c.rest = .done x →
      ∃ now count, c.view = some (now, count) ∧ x = some (q.answer count) := by
  have hinv := reachable_quotaInv hs
  have hchecks : s.store.checksAt q = s.store.checksIn q := by
    funext w
    exact hinv.redis.checksIn_eq w
  rw [hchecks]
  refine ⟨hinv.redis.allowed, fun a b => hinv.redis.allowed_interval, fun w hw hne => ?_,
    hinv.calls, fun c hc hop x hx => ?_⟩
  · subst hw
    obtain ⟨c, hc, hcount, -⟩ := (hinv.redis.counts _).live hne (q.lt_window_end s.store.clock)
    exact ⟨c, hc, hcount⟩
  · have hreturns := Service.reachable_callsObey (program_obeys q) hs c hc
    rw [hx, hop] at hreturns
    obtain ⟨now, count, hview, hanswer⟩ := hreturns
    exact ⟨now, count, hview, Except.ok.inj hanswer⟩

/-- Two checks of a student are allowed in each minute. -/
def twoPerMinute : Scope := ⟨"quota:submission", "student", 2, 60, by decide, by decide⟩

/-- Two checks overlap, two more come later, and the last one in the next minute. -/
def fiveChecks : List (Service.Action Operation Unit) :=
  [.start .check, .start .check, .serve 0 (), .serve 1 (), .serve 0 (), .start .check, .serve 2 (),
    .start (.wait 60000), .serve 3 (), .start .check, .serve 4 (), .serve 4 ()]

theorem quota_windows_twoPerMinute : ∃ s : Config,
    (system twoPerMinute).run ⟨⟨1000, fun _ => none, []⟩, []⟩ fiveChecks = some s ∧
    (s.store.checksAt twoPerMinute 0).map (Check.allowed twoPerMinute) = [true, true, false] := by
  let T := system twoPerMinute
  have heval : (T.run ⟨⟨1000, fun _ => none, []⟩, []⟩ fiveChecks).map
      (fun s => (s.store.checksAt twoPerMinute 0).length) = some 3 := by decide +kernel
  obtain ⟨s, hrun, hlength⟩ := Option.map_eq_some_iff.mp heval
  have hinit : T.Reachable ⟨⟨1000, fun _ => none, []⟩, []⟩ := .init ⟨⟨fun _ => rfl, rfl⟩, rfl⟩
  refine ⟨s, hrun, ?_⟩
  rw [(quota_windows (hinit.run hrun)).1 0, hlength]
  rfl

end Quota
