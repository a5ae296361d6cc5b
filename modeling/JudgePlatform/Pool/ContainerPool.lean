/-
# The container pool

`ContainerPool` of `pkg/pool/pool.go`, as an interleaving of routines over one
shared pool.  A routine is a call in progress of `Acquire`, `Release`,
`Discard`, `convergeLang`, `checkHealth` or one tick of the reconciler or the
autoscaler; its constructor says how far the call has come and which container,
if any, it has in its hand.  `advance` performs the next atomic step of one
routine: a critical section that touches only the maps, a single channel
operation, or one request to Docker.

The mutex is the flag `locked`.  It is up between two steps only where the
source keeps the lock over a channel operation that other routines can observe,
or over the removal of a container that found no room.

The answers of the environment (Docker's new container id or failure, the
health of an inspected container, a context that expires, the load signal the
autoscaler reads) are an argument of the step.  `removed` and `issued` are ghost
fields: the containers handed to `removeContainer`, and the ids Docker has
returned so far.  The working directory and the flags of a container that no
step reads are left out.
-/
import JudgePlatform.Library.Channel
import JudgePlatform.Library.TransitionSystem
import JudgePlatform.Pool.ScaleDecision

namespace Pool

/-! ## The shared state -/

structure PooledContainer where
  id : String
  language : String
  deriving DecidableEq, Repr

structure LangLimits where
  min : ℕ
  max : ℕ
  deriving DecidableEq, Repr

structure ContainerPool where
  /-- language -> idle containers -/
  availChans : String → Option (Channel PooledContainer)
  /-- the keys of `availChans` -/
  languages : List String
  inUse : List PooledContainer
  limits : String → LangLimits
  targets : String → ℕ
  globalCap : ℕ
  images : String → String
  locked : Bool
  removed : List PooledContainer
  issued : List String

namespace ContainerPool

/-- `NewPool`. -/
def newPool (globalCap : ℕ) : ContainerPool where
  availChans := fun _ => none
  languages := []
  inUse := []
  limits := fun _ => ⟨0, 0⟩
  targets := fun _ => 0
  globalCap := globalCap
  images := fun _ => ""
  locked := false
  removed := []
  issued := []

/-- `availChans[lang] = ch` for a channel that took or gave a container. -/
def setChan (p : ContainerPool) (lang : String) (ch : Channel PooledContainer) : ContainerPool :=
  { p with availChans := Function.update p.availChans lang (some ch) }

/-- `case c := <-ch` with a default branch: `none` when nothing waits in the
channel of the language, or it has none (a nil channel is never ready). -/
def receive (p : ContainerPool) (lang : String) : Option (PooledContainer × ContainerPool) :=
  match p.availChans lang with
  | none => none
  | some ch =>
    match ch.tryReceive with
    | some (c, ch') => some (c, p.setChan lang ch')
    | none => none

/-- `case ch <- c` with a default branch: `none` when the channel is full, or
there is none. -/
def send (p : ContainerPool) (lang : String) (c : PooledContainer) : Option ContainerPool :=
  match p.availChans lang with
  | none => none
  | some ch =>
    match ch.trySend c with
    | some ch' => some (p.setChan lang ch')
    | none => none

/-- What waits in the channel of a language. -/
def idle (p : ContainerPool) (lang : String) : List PooledContainer :=
  match p.availChans lang with
  | some ch => ch.buffer
  | none => []

/-- `len(p.availChans[lang])`. -/
def availCount (p : ContainerPool) (lang : String) : ℕ := (p.idle lang).length

/-- The number of in-use containers of a language. -/
def inUseCount (p : ContainerPool) (lang : String) : ℕ :=
  p.inUse.countP (·.language = lang)

/-- `_, ok := p.inUse[id]`. -/
def hasInUse (p : ContainerPool) (id : String) : Bool := p.inUse.any (·.id = id)

/-- `p.inUse[c.ID] = c`. -/
def setInUse (p : ContainerPool) (c : PooledContainer) : ContainerPool :=
  { p with inUse := c :: p.inUse.filter (·.id ≠ c.id) }

/-- `delete(p.inUse, id)`. -/
def deleteInUse (p : ContainerPool) (id : String) : ContainerPool :=
  { p with inUse := p.inUse.filter (·.id ≠ id) }

def setLocked (p : ContainerPool) (b : Bool) : ContainerPool := { p with locked := b }

/-- `removeContainer(c)`: Docker's answer is ignored. -/
def removeContainer (p : ContainerPool) (c : PooledContainer) : ContainerPool :=
  { p with removed := c :: p.removed }

/-- The id Docker gave a new container is one it has not given before. -/
def newPooledContainer (p : ContainerPool) (id : String) : Option ContainerPool :=
  if id ∈ p.issued then none else some { p with issued := id :: p.issued }

def setTarget (p : ContainerPool) (lang : String) (target : ℕ) : ContainerPool :=
  { p with targets := Function.update p.targets lang target }

/-- `globalLiveTotal`: in use plus available, over every language. -/
def globalLiveTotal (p : ContainerPool) : ℕ :=
  p.inUse.length + (p.languages.map p.availCount).sum

/-- One container of `WarmUp`'s loop. -/
def warmUpOne (lang : String) (p : ContainerPool) (id : String) : ContainerPool :=
  let p := { p with issued := id :: p.issued }
  match p.send lang ⟨id, lang⟩ with
  | some p' => p'
  | none => p.removeContainer ⟨id, lang⟩

/-- `WarmUp(lang, image, min, max)` of a language that has no channel yet; `ids`
are the containers Docker created before the loop ended or a creation failed. -/
def warmUp (p : ContainerPool) (lang image : String) (min max : ℕ) (ids : List String) :
    ContainerPool :=
  let p := { p with
    images := Function.update p.images lang image
    availChans := Function.update p.availChans lang (some (Channel.make max))
    languages := lang :: p.languages
    limits := Function.update p.limits lang ⟨min, max⟩
    targets := Function.update p.targets lang min }
  (ids.take min).foldl (warmUpOne lang) p

/-! ### What the channel operations do -/

theorem idle_setChan (p : ContainerPool) (lang l : String) (ch : Channel PooledContainer) :
    (p.setChan lang ch).idle l = if l = lang then ch.buffer else p.idle l := by
  unfold idle setChan
  by_cases h : l = lang
  · subst h
    simp only [Function.update_self, if_true]
  · simp only [Function.update_of_ne h, if_neg h]

/-- A container received from a language was the first one waiting there. -/
theorem receive_eq_some {p p' : ContainerPool} {lang : String} {c : PooledContainer}
    (h : p.receive lang = some (c, p')) :
    ∃ ch ch', p.availChans lang = some ch ∧ p' = p.setChan lang ch' ∧
      ch'.capacity = ch.capacity ∧ p.idle lang = c :: ch'.buffer := by
  unfold receive at h
  rcases hch : p.availChans lang with _ | ch
  · simp only [hch, reduceCtorEq] at h
  · simp only [hch] at h
    rcases htry : ch.tryReceive with _ | ⟨d, ch'⟩
    · simp only [htry, reduceCtorEq] at h
    · simp only [htry] at h
      obtain ⟨rfl, rfl⟩ := Prod.mk.inj (Option.some.inj h)
      obtain ⟨hcap, hbuf⟩ := Channel.tryReceive_eq_some htry
      refine ⟨ch, ch', rfl, rfl, hcap, ?_⟩
      unfold idle
      rw [hch]
      exact hbuf

/-- A container sent to a language waits there behind the others. -/
theorem send_eq_some {p p' : ContainerPool} {lang : String} {c : PooledContainer}
    (h : p.send lang c = some p') :
    ∃ ch ch', p.availChans lang = some ch ∧ p' = p.setChan lang ch' ∧
      ch'.capacity = ch.capacity ∧ ch'.buffer = p.idle lang ++ [c] := by
  unfold send at h
  rcases hch : p.availChans lang with _ | ch
  · simp only [hch, reduceCtorEq] at h
  · simp only [hch] at h
    rcases htry : ch.trySend c with _ | ch'
    · simp only [htry, reduceCtorEq] at h
    · simp only [htry] at h
      obtain rfl := Option.some.inj h
      obtain ⟨hcap, hbuf⟩ := Channel.trySend_eq_some htry
      refine ⟨ch, ch', rfl, rfl, hcap, ?_⟩
      unfold idle
      rw [hch]
      exact hbuf

theorem newPooledContainer_eq_some {p p' : ContainerPool} {id : String}
    (h : p.newPooledContainer id = some p') :
    id ∉ p.issued ∧ p' = { p with issued := id :: p.issued } := by
  unfold newPooledContainer at h
  by_cases hid : id ∈ p.issued
  · rw [if_pos hid] at h
    cases h
  · rw [if_neg hid] at h
    exact ⟨hid, (Option.some.inj h).symm⟩

end ContainerPool

/-! ## The routines -/

/-- What the caller of `convergeLang` goes on with. -/
inductive Caller where
  | other
  | reconciler (langs : List String)
  | autoscaler (langs : List String)
  deriving DecidableEq, Repr

/-- How far a call has come; `c` is always the container the call is about. -/
inductive Routine where
  -- Acquire
  | acquire (lang : String)
  | acquireSelect (lang : String)
  | acquireRegister (lang : String) (c : PooledContainer)
  /-- `Acquire` has returned `c`; the acquirer has not given it back yet. -/
  | acquired (c : PooledContainer)
  -- Release
  | release (c : PooledContainer)
  | releaseSend (c : PooledContainer)
  | releaseRemove (c : PooledContainer)
  -- Discard
  | discard (c : PooledContainer)
  | discardRemove (c : PooledContainer) (image : String)
  | discardCreate (lang image : String)
  | discardSend (c : PooledContainer)
  | discardDrop (c : PooledContainer)
  /-- the language has no channel: the replacement is kept by nobody -/
  | discardLeak (c : PooledContainer)
  -- convergeLang
  | converge (lang : String) (k : Caller)
  | convergeCreate (lang : String) (left : ℕ) (k : Caller)
  | convergeSend (lang : String) (c : PooledContainer) (left : ℕ) (k : Caller)
  | convergeDrop (lang : String) (c : PooledContainer) (left : ℕ) (k : Caller)
  | convergeTake (lang : String) (left : ℕ) (k : Caller)
  | convergeRemove (lang : String) (c : PooledContainer) (left : ℕ) (k : Caller)
  -- StartReconciler, one tick
  | reconcile
  | reconcileNext (langs : List String)
  -- checkHealth
  | health
  | healthNext (langs : List String)
  | healthCount (lang image : String) (langs : List String)
  | healthTake (lang image : String) (left : ℕ) (langs : List String)
  | healthInspect (lang image : String) (c : PooledContainer) (left : ℕ) (langs : List String)
  | healthReturn (lang image : String) (c : PooledContainer) (left : ℕ) (langs : List String)
  | healthRemove (lang image : String) (c : PooledContainer) (left : ℕ) (langs : List String)
  | healthCreate (lang image : String) (left : ℕ) (langs : List String)
  | healthSend (lang image : String) (c : PooledContainer) (left : ℕ) (langs : List String)
  | healthDrop (lang image : String) (c : PooledContainer) (left : ℕ) (langs : List String)
  -- StartAutoscaler, one tick
  | autoscale
  | autoscaleNext (langs : List String)
  | autoscaleHeadroom (lang : String) (limits : LangLimits) (target : ℕ) (langs : List String)
  | autoscaleDecide (lang : String) (limits : LangLimits) (target : ℕ) (headroom : Bool)
      (langs : List String)
  | autoscaleSet (lang : String) (newTarget : ℕ) (langs : List String)
  | done
  deriving DecidableEq, Repr

/-- The caller's next step after `convergeLang` has returned. -/
def Caller.resume : Caller → Routine
  | .other => .done
  | .reconciler langs => .reconcileNext langs
  | .autoscaler langs => .autoscaleNext langs

/-- What the environment answers at a step. -/
inductive Answer where
  | ok
  /-- the context of an `Acquire` is done -/
  | timeout
  | created (id : String)
  | createFailed
  | healthy (b : Bool)
  /-- the load signal of the last interval and the state of the two cooldowns -/
  | signal (avgWaitMs upThresholdMs downThresholdMs : ℚ) (hadTraffic : Bool) (timeouts : ℤ)
      (upElapsed downElapsed : Bool)

namespace Routine

open ContainerPool

/-- The next atomic step of a routine: `none` when it has to wait (the mutex is
taken, or an `Acquire` finds its channel empty and its context alive) or when
the answer is not one to the question the routine asks. -/
def advance (p : ContainerPool) : Routine → Answer → Option (ContainerPool × Routine)
  | acquire lang, .ok =>
    if p.locked then none
    else if (p.availChans lang).isSome then some (p, acquireSelect lang)
    else some (p, done)
  | acquireSelect lang, .ok =>
    match p.receive lang with
    | some (c, p') => some (p', acquireRegister lang c)
    | none => none
  | acquireSelect _, .timeout => some (p, done)
  | acquireRegister _ c, .ok =>
    if p.locked then none else some (p.setInUse c, acquired c)
  | release c, .ok =>
    if p.locked then none
    else if p.hasInUse c.id then some ((p.deleteInUse c.id).setLocked true, releaseSend c)
    else some (p, done)
  -- the lock is held from here on until the routine is done
  | releaseSend c, .ok =>
    match p.send c.language c with
    | some p' => some (p'.setLocked false, done)
    | none => some (p, releaseRemove c)
  | releaseRemove c, .ok => some ((p.removeContainer c).setLocked false, done)
  | discard c, .ok =>
    if p.locked then none
    else if p.hasInUse c.id then
      some (p.deleteInUse c.id, discardRemove c (p.images c.language))
    else some (p, done)
  | discardRemove c image, .ok =>
    if image = "" then some (p.removeContainer c, done)
    else some (p.removeContainer c, discardCreate c.language image)
  | discardCreate lang _, .created id =>
    match p.newPooledContainer id with
    | some p' => some (p', discardSend ⟨id, lang⟩)
    | none => none
  | discardCreate _ _, .createFailed => some (p, done)
  | discardSend c, .ok =>
    if (p.availChans c.language).isNone then some (p, discardLeak c)
    else
      match p.send c.language c with
      | some p' => some (p', done)
      | none => some (p, discardDrop c)
  | discardDrop c, .ok => some (p.removeContainer c, done)
  -- the counts are read in one critical section, together with the target
  | converge lang k, .ok =>
    if p.locked then none
    else
      let current := p.inUseCount lang + p.availCount lang
      let target := p.targets lang
      if current < target then some (p, convergeCreate lang (target - current) k)
      else if current > target ∧ (p.availChans lang).isSome then
        some (p, convergeTake lang (current - target) k)
      else some (p, k.resume)
  | convergeCreate _ 0 k, .ok => some (p, k.resume)
  | convergeCreate lang (left + 1) k, .created id =>
    match p.newPooledContainer id with
    | some p' => some (p', convergeSend lang ⟨id, lang⟩ left k)
    | none => none
  | convergeCreate _ (_ + 1) k, .createFailed => some (p, k.resume)
  | convergeSend lang c left k, .ok =>
    if p.locked then none
    else
      match p.send lang c with
      | some p' => some (p', convergeCreate lang left k)
      | none => some (p.setLocked true, convergeDrop lang c left k)
  | convergeDrop lang c left k, .ok =>
    some ((p.removeContainer c).setLocked false, convergeCreate lang left k)
  | convergeTake _ 0 k, .ok => some (p, k.resume)
  | convergeTake lang (left + 1) k, .ok =>
    match p.receive lang with
    | some (c, p') => some (p', convergeRemove lang c left k)
    | none => some (p, convergeTake lang left k)
  | convergeRemove lang c left k, .ok => some (p.removeContainer c, convergeTake lang left k)
  | reconcile, .ok => if p.locked then none else some (p, reconcileNext p.languages)
  | reconcileNext [], .ok => some (p, done)
  | reconcileNext (lang :: langs), .ok => some (p, converge lang (.reconciler langs))
  | health, .ok => if p.locked then none else some (p, healthNext p.languages)
  | healthNext [], .ok => some (p, done)
  | healthNext (lang :: langs), .ok =>
    if p.locked then none
    else if (p.availChans lang).isSome then some (p, healthCount lang (p.images lang) langs)
    else some (p, healthNext langs)
  | healthCount lang image langs, .ok => some (p, healthTake lang image (p.availCount lang) langs)
  | healthTake _ _ 0 langs, .ok => some (p, healthNext langs)
  | healthTake lang image (left + 1) langs, .ok =>
    match p.receive lang with
    | some (c, p') => some (p', healthInspect lang image c left langs)
    | none => some (p, healthTake lang image left langs)
  | healthInspect lang image c left langs, .healthy true =>
    some (p, healthReturn lang image c left langs)
  | healthInspect lang image c left langs, .healthy false =>
    some (p, healthRemove lang image c left langs)
  | healthReturn lang image c left langs, .ok =>
    match p.send lang c with
    | some p' => some (p', healthTake lang image left langs)
    | none => some (p, healthDrop lang image c left langs)
  | healthRemove lang image c left langs, .ok =>
    if image = "" then some (p.removeContainer c, healthTake lang image left langs)
    else some (p.removeContainer c, healthCreate lang image left langs)
  | healthCreate lang image left langs, .created id =>
    match p.newPooledContainer id with
    | some p' => some (p', healthSend lang image ⟨id, lang⟩ left langs)
    | none => none
  | healthCreate lang image left langs, .createFailed => some (p, healthTake lang image left langs)
  | healthSend lang image c left langs, .ok =>
    match p.send lang c with
    | some p' => some (p', healthTake lang image left langs)
    | none => some (p, healthDrop lang image c left langs)
  | healthDrop lang image c left langs, .ok =>
    some (p.removeContainer c, healthTake lang image left langs)
  | autoscale, .ok => if p.locked then none else some (p, autoscaleNext p.languages)
  | autoscaleNext [], .ok => some (p, done)
  | autoscaleNext (lang :: langs), .ok =>
    if p.locked then none
    else some (p, autoscaleHeadroom lang (p.limits lang) (p.targets lang) langs)
  | autoscaleHeadroom lang limits target langs, .ok =>
    if p.locked then none
    else some (p, autoscaleDecide lang limits target (p.globalLiveTotal < p.globalCap) langs)
  | autoscaleDecide lang limits target headroom langs,
      .signal avgWaitMs upThresholdMs downThresholdMs hadTraffic timeouts upElapsed downElapsed =>
    let decision := decideScale limits.min limits.max target avgWaitMs hadTraffic timeouts
      upThresholdMs downThresholdMs upElapsed downElapsed headroom
    if decision.newTarget ≠ target then some (p, autoscaleSet lang decision.newTarget langs)
    else some (p, autoscaleNext langs)
  | autoscaleSet lang newTarget langs, .ok =>
    if p.locked then none
    else some (p.setTarget lang newTarget, converge lang (.autoscaler langs))
  | _, _ => none

/-- The tick of the one autoscaler goroutine is still running. -/
def isAutoscaler : Routine → Bool
  | autoscale | autoscaleNext _ | autoscaleHeadroom .. | autoscaleDecide .. | autoscaleSet .. => true
  | converge _ (.autoscaler _) | convergeCreate _ _ (.autoscaler _) => true
  | convergeSend _ _ _ (.autoscaler _) | convergeDrop _ _ _ (.autoscaler _) => true
  | convergeTake _ _ (.autoscaler _) | convergeRemove _ _ _ (.autoscaler _) => true
  | _ => false

end Routine

/-! ## The system -/

structure PoolState where
  pool : ContainerPool
  routines : List Routine

/-- The calls that may begin at any moment. -/
inductive Call where
  | acquire (lang : String)
  | convergeLang (lang : String)
  | checkHealth
  | reconcile
  | autoscale
  deriving DecidableEq, Repr

def Call.start : Call → Routine
  | .acquire lang => .acquire lang
  | .convergeLang lang => .converge lang .other
  | .checkHealth => .health
  | .reconcile => .reconcile
  | .autoscale => .autoscale

inductive PoolAction where
  | call (c : Call)
  /-- acquirer `i` gives its container back -/
  | release (i : ℕ)
  | discard (i : ℕ)
  /-- routine `i` takes its next step -/
  | go (i : ℕ) (a : Answer)

/-- One step of the interleaving.  An acquirer finishes its container with one
`Release` or one `Discard`, and the ticks of the one autoscaler goroutine do not
overlap; any other calls may. -/
def PoolState.step (s : PoolState) : PoolAction → Option PoolState
  | .call c =>
    if c = .autoscale ∧ s.routines.any Routine.isAutoscaler then none
    else some { s with routines := s.routines ++ [c.start] }
  | .release i =>
    match s.routines[i]? with
    | some (.acquired c) => some { s with routines := s.routines.set i (.release c) }
    | _ => none
  | .discard i =>
    match s.routines[i]? with
    | some (.acquired c) => some { s with routines := s.routines.set i (.discard c) }
    | _ => none
  | .go i a =>
    match s.routines[i]? with
    | none => none
    | some r =>
      match r.advance s.pool a with
      | some (p', r') => some ⟨p', s.routines.set i r'⟩
      | none => none

/-- A pool as start-up leaves it: a new pool warmed up for some languages, with
ids that Docker has not used before. -/
inductive Warmed : ContainerPool → Prop
  | new (globalCap : ℕ) : Warmed (.newPool globalCap)
  | warmUp {p : ContainerPool} (h : Warmed p) (lang image : String) (min max : ℕ)
      (ids : List String) (hmin : min ≤ max) (hlang : p.availChans lang = none)
      (hfresh : ∀ id ∈ ids, id ∉ p.issued) (hnodup : ids.Nodup) :
      Warmed (p.warmUp lang image min max ids)

/-- The pool under any interleaving of its routines. -/
def system : TransitionSystem PoolState PoolAction where
  init s := Warmed s.pool ∧ s.routines = []
  step := PoolState.step

end Pool
