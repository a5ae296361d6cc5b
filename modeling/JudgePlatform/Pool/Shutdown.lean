/-
# Shutting the pool down

`Shutdown` runs beside the calls that are still in progress.  It holds the mutex
while it closes each channel, removes what waits in it and deletes it from the
map; but `Acquire`, `Discard`, `checkHealth` and `convergeLang` have fetched a
channel under the mutex and use it afterwards without.

A receive from a closed channel that is empty yields nil, a send on a closed
channel panics.  `shutdown_safe` says that neither happens when no channel is
closed that a call still `Holds`.
-/
import JudgePlatform.Pool.Moves

namespace Pool

open ContainerPool

/-! ## Channels in use -/

/-- An operation on a channel. -/
inductive ChannelUse where
  /-- a receive from a channel that was fetched earlier -/
  | receive (lang : String)
  /-- a send on a channel that was fetched earlier -/
  | send (lang : String)
  /-- a send on a channel that is fetched in the same critical section -/
  | sendCurrent (lang : String)

namespace Routine

/-- The operation on a channel that a routine performs next. -/
def channelUse : Routine → Option ChannelUse
  | acquireSelect lang => some (.receive lang)
  | releaseSend c => some (.sendCurrent c.language)
  | discardSend c => some (.send c.language)
  | convergeSend lang _ _ _ => some (.sendCurrent lang)
  | convergeTake lang (_ + 1) _ => some (.receive lang)
  | healthTake lang _ (_ + 1) _ => some (.receive lang)
  | healthReturn lang _ _ _ _ | healthSend lang _ _ _ _ => some (.send lang)
  | _ => none

/-- The language whose channel a routine has fetched and may still use. -/
def holds : Routine → Option String
  | acquireSelect lang => some lang
  | discardRemove c image => if image = "" then none else some c.language
  | discardCreate lang _ => some lang
  | discardSend c => some c.language
  | convergeTake lang left _ | convergeRemove lang _ left _ => if left = 0 then none else some lang
  | healthCount lang _ _ => some lang
  | healthTake lang _ left _ | healthDrop lang _ _ left _ => if left = 0 then none else some lang
  | healthInspect lang _ _ _ _ | healthReturn lang _ _ _ _ => some lang
  | healthCreate lang _ _ _ | healthSend lang _ _ _ _ => some lang
  | healthRemove lang image _ left _ => if image = "" ∧ left = 0 then none else some lang
  | _ => none

/-- Whether a routine has the mutex between two of its steps. -/
def locks : Routine → Bool
  | releaseSend _ | releaseRemove _ | convergeDrop _ _ _ _ => true
  | _ => false

end Routine

/-! ## The system with a shutdown -/

/-- How a goroutine panics. -/
inductive Panic where
  | sendOnClosed (lang : String)
  | nilContainer (lang : String)

inductive Worker where
  | call (r : Routine)
  /-- a `Discard` for whose language there was no channel any more -/
  | late (r : Routine)
  /-- a call that was given nil; `Acquire` takes the mutex before it uses it -/
  | gotNil (lang : String) (needsLock : Bool)
  | panicked (p : Panic)

/-- How far `Shutdown` has come. -/
inductive Teardown where
  | waiting
  | closing (langs : List String)
  /-- the channel of the language is closed and what waits in it is removed -/
  | draining (lang : String) (langs : List String)
  | finished

structure ShutdownState where
  pool : ContainerPool
  workers : List Worker
  /-- the languages whose channel was closed -/
  closed : List String
  teardown : Teardown

inductive ShutdownAction where
  | call (c : Call)
  | release (i : ℕ)
  | discard (i : ℕ)
  | go (i : ℕ) (a : Answer)
  | shutdown
  /-- the language that the loop over `availChans` comes to next -/
  | close (lang : String)
  | drain
  | finish

/-- `delete(p.availChans, lang)`. -/
def ContainerPool.deleteChan (p : ContainerPool) (lang : String) : ContainerPool :=
  { p with
    availChans := Function.update p.availChans lang none
    languages := p.languages.filter (· ≠ lang) }

/-- Remove every container in use. -/
def ContainerPool.removeInUse (p : ContainerPool) : ContainerPool :=
  { p with removed := p.inUse ++ p.removed, inUse := [] }

/-- The worker that a call goes on as. -/
def Routine.next (p : ContainerPool) (r r' : Routine) : Worker :=
  match r with
  | .discard c => if (p.availChans c.language).isNone then .late r' else .call r'
  | _ => .call r'

/-- Whether `Acquire` was given the container, which locks the mutex next. -/
def Routine.isAcquire : Routine → Bool
  | acquireSelect _ => true
  | _ => false

/-- The next step of a worker. -/
def Worker.advance (p : ContainerPool) (closed : List String) :
    Worker → Answer → Option (ContainerPool × Worker)
  | call r, a =>
    match r.channelUse, a with
    | some (.send lang), .ok =>
      if lang ∈ closed then some (p, panicked (.sendOnClosed lang))
      else (r.advance p a).map fun e => (e.1, call e.2)
    | some (.sendCurrent lang), .ok =>
      (r.advance p a).map fun e =>
        if lang ∈ closed ∧ (p.availChans lang).isSome then (p, panicked (.sendOnClosed lang))
        else (e.1, call e.2)
    | some (.receive lang), .ok =>
      if lang ∈ closed ∧ (p.receive lang).isNone then some (p, gotNil lang r.isAcquire)
      else (r.advance p a).map fun e => (e.1, call e.2)
    | _, _ => (r.advance p a).map fun e => (e.1, r.next p e.2)
  | late r, a => (r.advance p a).map fun e => (e.1, late e.2)
  | gotNil lang needsLock, .ok =>
    if needsLock ∧ p.locked then none else some (p, panicked (.nilContainer lang))
  | _, _ => none

/-- An acquirer decides what to do with its container. -/
def giveBack (s : ShutdownState) (i : ℕ) (f : PooledContainer → Routine) : Option ShutdownState :=
  match s.workers[i]? with
  | some (.call (.acquired c)) => some { s with workers := s.workers.set i (.call (f c)) }
  | _ => none

def ShutdownState.step (s : ShutdownState) : ShutdownAction → Option ShutdownState
  | .call c => some { s with workers := s.workers ++ [.call c.start] }
  | .release i => giveBack s i .release
  | .discard i => giveBack s i .discard
  | .go i a =>
    match s.workers[i]? with
    | none => none
    | some w =>
      match w.advance s.pool s.closed a with
      | some (p', w') => some { s with pool := p', workers := s.workers.set i w' }
      | none => none
  | .shutdown =>
    match s.teardown with
    | .waiting =>
      if s.pool.locked then none
      else some { s with pool := s.pool.setLocked true, teardown := .closing s.pool.languages }
    | _ => none
  | .close lang =>
    match s.teardown with
    | .closing langs =>
      if lang ∈ langs then
        some { s with closed := lang :: s.closed, teardown := .draining lang (langs.erase lang) }
      else none
    | _ => none
  | .drain =>
    match s.teardown with
    | .draining lang langs =>
      match s.pool.receive lang with
      | some (c, p') => some { s with pool := p'.removeContainer c }
      | none => some { s with pool := s.pool.deleteChan lang, teardown := .closing langs }
    | _ => none
  | .finish =>
    match s.teardown with
    | .closing [] =>
      some { s with pool := s.pool.removeInUse.setLocked false, teardown := .finished }
    | _ => none

/-- The pool under any interleaving of its calls with one `Shutdown`. -/
def shutdownSystem : TransitionSystem ShutdownState ShutdownAction where
  init s := Warmed s.pool ∧ s.workers = [] ∧ s.closed = [] ∧ s.teardown = .waiting
  step := ShutdownState.step

/-! ## What one step of a routine can do -/

section
variable {p p' : ContainerPool} {r r' : Routine} {a : Answer}

/-- A receive leaves the languages that have a channel as they are. -/
theorem receive_isSome {lang : String} {c : PooledContainer} (h : p.receive lang = some (c, p'))
    (l : String) : (p'.availChans l).isSome = (p.availChans l).isSome := by
  obtain ⟨ch, ch', hch, rfl, -, -⟩ := receive_eq_some h
  unfold setChan
  by_cases hl : l = lang
  · subst hl
    simp only [Function.update_self, hch, Option.isSome_some]
  · simp only [Function.update_of_ne hl]

theorem receive_locked {lang : String} {c : PooledContainer}
    (h : p.receive lang = some (c, p')) : p'.locked = p.locked := by
  obtain ⟨ch, ch', -, rfl, -, -⟩ := receive_eq_some h
  rfl

theorem send_isSome {lang : String} {c : PooledContainer} (h : p.send lang c = some p')
    (l : String) : (p'.availChans l).isSome = (p.availChans l).isSome := by
  obtain ⟨ch, ch', hch, rfl, -, -⟩ := send_eq_some h
  unfold setChan
  by_cases hl : l = lang
  · subst hl
    simp only [Function.update_self, hch, Option.isSome_some]
  · simp only [Function.update_of_ne hl]

theorem send_locked {lang : String} {c : PooledContainer}
    (h : p.send lang c = some p') : p'.locked = p.locked := by
  obtain ⟨ch, ch', -, rfl, -, -⟩ := send_eq_some h
  rfl

theorem newPooledContainer_frame {id : String} (h : p.newPooledContainer id = some p') :
    p'.availChans = p.availChans ∧ p'.locked = p.locked := by
  obtain ⟨-, rfl⟩ := newPooledContainer_eq_some h
  exact ⟨rfl, rfl⟩

theorem resume_locks (k : Caller) : k.resume.locks = false := by
  cases k <;> rfl

theorem resume_holds (k : Caller) : k.resume.holds = none := by
  cases k <;> rfl

/-- No routine makes or deletes a channel. -/
theorem advance_isSome (h : r.advance p a = some (p', r')) (l : String) :
    (p'.availChans l).isSome = (p.availChans l).isSome := by
  revert h
  fun_cases Routine.advance p r a
  all_goals
    intro h
    first
      | cases h; done
      | obtain ⟨rfl, rfl⟩ := Prod.mk.inj (Option.some.inj h)
  all_goals first
    | rfl
    | exact receive_isSome (by assumption) l
    | exact send_isSome (by assumption) l
    | rename_i hput; exact id (send_isSome hput l)
    | exact congrArg (fun f => (f l).isSome) (newPooledContainer_frame (by assumption)).1

/-- A routine keeps the mutex as it is, takes it when it is free, or gives up the one
it has. -/
theorem advance_locks (h : r.advance p a = some (p', r')) :
    (p'.locked = p.locked ∧ r'.locks = r.locks) ∨
      (p.locked = false ∧ r.locks = false ∧ p'.locked = true ∧ r'.locks = true) ∨
      (r.locks = true ∧ p'.locked = false ∧ r'.locks = false) := by
  revert h
  fun_cases Routine.advance p r a
  all_goals
    intro h
    first
      | cases h; done
      | obtain ⟨rfl, rfl⟩ := Prod.mk.inj (Option.some.inj h)
  all_goals first
    | exact .inl ⟨rfl, rfl⟩
    | exact .inl ⟨rfl, resume_locks _⟩
    | exact .inl ⟨receive_locked (by assumption), rfl⟩
    | exact .inl ⟨send_locked (by assumption), rfl⟩
    | exact .inl ⟨(newPooledContainer_frame (by assumption)).2, rfl⟩
    | exact .inr (.inl ⟨eq_false_of_ne_true (by assumption), rfl, rfl, rfl⟩)
    | exact .inr (.inr ⟨rfl, rfl, rfl⟩)

/-- A routine goes on with the channel it has, or fetches one under the mutex; for a
language without one, `Discard` fetches a nil channel. -/
theorem advance_holds {lang : String} (h : r.advance p a = some (p', r'))
    (hr' : r'.holds = some lang) :
    r.holds = some lang ∨
      (p.locked = false ∧ ((p.availChans lang).isSome ∨ ∃ c, r = .discard c ∧ c.language = lang)) := by
  revert h hr'
  fun_cases Routine.advance p r a
  all_goals
    intro h hr'
    first
      | cases h; done
      | obtain ⟨rfl, rfl⟩ := Prod.mk.inj (Option.some.inj h)
  all_goals first
    | exact .inl hr'
    | cases hr'; done
    | exact absurd hr' (by rw [resume_holds]; exact Option.some_ne_none _ ∘ Eq.symm)
    -- the countdown of a loop, or the channel is fetched here
    | grind [Routine.holds]

end

/-! ## What one step of a worker can do -/

namespace Worker

/-- Nothing has gone wrong with the worker. -/
def Unhurt : Worker → Prop
  | call _ | late _ => True
  | _ => False

def locks : Worker → Bool
  | call r | late r => r.locks
  | _ => false

def holds : Worker → Option String
  | call r => r.holds
  | _ => none

end Worker

section
variable {p p' : ContainerPool} {closed : List String} {w w' : Worker} {a : Answer}

theorem Routine.next_of_channelUse {r : Routine} (h : r.channelUse.isSome) (r' : Routine) :
    r.next p r' = .call r' := by
  cases r <;> first | rfl | cases h

/-- A channel that was fetched earlier is held. -/
theorem channelUse_holds {r : Routine} {lang : String}
    (h : r.channelUse = some (.receive lang) ∨ r.channelUse = some (.send lang)) :
    r.holds = some lang := by
  fun_cases Routine.channelUse r <;> simp_all [Routine.channelUse, Routine.holds]

/-- A send on a channel fetched in the same critical section needs the mutex. -/
theorem sendCurrent_locks {r : Routine} {lang : String} {e : ContainerPool × Routine}
    (hr : r.channelUse = some (.sendCurrent lang)) (h : r.advance p .ok = some e) :
    r.locks = true ∨ p.locked = false := by
  revert hr
  fun_cases Routine.channelUse r
  case case2 c => exact fun _ => .inl rfl
  case case4 l c left k =>
    intro _
    right
    simp only [Routine.advance] at h
    split_ifs at h with hlocked
    all_goals exact eq_false_of_ne_true hlocked
  all_goals
    intro hr
    cases hr

/-- A `Discard` goes on late when its language has no channel. -/
theorem Routine.next_cases (p : ContainerPool) (r r' : Routine) :
    r.next p r' = .late r' ∨
      (r.next p r' = .call r' ∧ ∀ c, r = .discard c → (p.availChans c.language).isSome) := by
  cases r with
  | discard c =>
    show (if (p.availChans c.language).isNone then Worker.late r' else .call r') = _ ∨
      (if (p.availChans c.language).isNone then Worker.late r' else .call r') = _ ∧ _
    by_cases hnone : (p.availChans c.language).isNone
    · exact .inl (if_pos hnone)
    · refine .inr ⟨if_neg hnone, ?_⟩
      rintro _ ⟨⟩
      exact Option.isSome_iff_ne_none.mpr fun h => hnone (by rw [h]; rfl)
  | _ => exact .inr ⟨rfl, fun _ h => nomatch h⟩

theorem Routine.next_locks (r r' : Routine) : (r.next p r').locks = r'.locks := by
  rcases r.next_cases p r' with h | ⟨h, -⟩ <;> rw [h] <;> rfl

theorem Routine.next_unhurt (r r' : Routine) : (r.next p r').Unhurt := by
  rcases r.next_cases p r' with h | ⟨h, -⟩ <;> rw [h] <;> trivial

/-- A worker goes on with the channel it has, or fetches one that is in the map. -/
theorem next_holds {r r' : Routine} {lang : String} (h : r.advance p a = some (p', r'))
    (hheld : (r.next p r').holds = some lang) :
    r.holds = some lang ∨ (p.locked = false ∧ (p.availChans lang).isSome) := by
  rcases r.next_cases p r' with hnext | ⟨hnext, hsome⟩
  · rw [hnext] at hheld
    cases hheld
  · rw [hnext] at hheld
    rcases advance_holds h hheld with hr | ⟨hfree, havail | ⟨c, rfl, rfl⟩⟩
    · exact .inl hr
    · exact .inr ⟨hfree, havail⟩
    · exact .inr ⟨hfree, hsome c rfl⟩

/-- **Inversion of `Worker.advance`**: an unhurt worker takes the step of its routine, or
uses a channel that was closed, which it holds or finds in the map. -/
theorem Worker.advance_cases (hw : w.Unhurt) (h : w.advance p closed a = some (p', w')) :
    (∃ r r', r.advance p a = some (p', r') ∧
      ((w = call r ∧ w' = r.next p r') ∨ (w = late r ∧ w' = late r'))) ∨
    (∃ r lang, w = call r ∧ lang ∈ closed ∧ r.holds = some lang) ∨
    (∃ r lang, w = call r ∧ lang ∈ closed ∧ (p.availChans lang).isSome ∧
      (r.locks = true ∨ p.locked = false)) := by
  cases w with
  | late r =>
    obtain ⟨e, he, heq⟩ := Option.map_eq_some_iff.mp h
    obtain ⟨rfl, rfl⟩ := Prod.mk.inj heq
    exact .inl ⟨r, e.2, he, .inr ⟨rfl, rfl⟩⟩
  | gotNil | panicked => cases hw
  | call r =>
    simp only [advance] at h
    split at h
    · rename_i lang huse
      split_ifs at h with hclosed
      · exact .inr (.inl ⟨r, lang, rfl, hclosed, channelUse_holds (.inr huse)⟩)
      · obtain ⟨e, he, heq⟩ := Option.map_eq_some_iff.mp h
        obtain ⟨rfl, rfl⟩ := Prod.mk.inj heq
        refine .inl ⟨r, e.2, he, .inl ⟨rfl, ?_⟩⟩
        rw [Routine.next_of_channelUse (by rw [huse]; rfl)]
    · rename_i lang huse
      obtain ⟨e, he, heq⟩ := Option.map_eq_some_iff.mp h
      split_ifs at heq with hclosed
      · exact .inr (.inr ⟨r, lang, rfl, hclosed.1, hclosed.2, sendCurrent_locks huse he⟩)
      · obtain ⟨rfl, rfl⟩ := Prod.mk.inj heq
        refine .inl ⟨r, e.2, he, .inl ⟨rfl, ?_⟩⟩
        rw [Routine.next_of_channelUse (by rw [huse]; rfl)]
    · rename_i lang huse
      split_ifs at h with hclosed
      · exact .inr (.inl ⟨r, lang, rfl, hclosed.1, channelUse_holds (.inl huse)⟩)
      · obtain ⟨e, he, heq⟩ := Option.map_eq_some_iff.mp h
        obtain ⟨rfl, rfl⟩ := Prod.mk.inj heq
        refine .inl ⟨r, e.2, he, .inl ⟨rfl, ?_⟩⟩
        rw [Routine.next_of_channelUse (by rw [huse]; rfl)]
    · obtain ⟨e, he, heq⟩ := Option.map_eq_some_iff.mp h
      obtain ⟨rfl, rfl⟩ := Prod.mk.inj heq
      exact .inl ⟨r, e.2, he, .inl ⟨rfl, rfl⟩⟩

end

/-! ## The invariant of a shutdown -/

/-- `Shutdown` has the mutex. -/
def Teardown.locks : Teardown → Bool
  | .closing _ | .draining _ _ => true
  | _ => false

/-- What every state reached satisfies when no channel is closed that is still held. -/
structure Orderly (s : ShutdownState) : Prop where
  /-- the mutex has one owner when it is taken and none otherwise -/
  owners : s.workers.countP Worker.locks + s.teardown.locks.toNat = s.pool.locked.toNat
  gone : ∀ lang ∈ s.closed,
    s.pool.availChans lang = none ∨ ∃ langs, s.teardown = .draining lang langs
  unheld : ∀ lang ∈ s.closed, ∀ w ∈ s.workers, w.holds ≠ some lang
  unhurt : ∀ w ∈ s.workers, w.Unhurt

/-- A closed channel that is still in the map is being drained under the mutex. -/
theorem Orderly.draining {s : ShutdownState} (hs : Orderly s) {lang : String}
    (hclosed : lang ∈ s.closed) (hsome : (s.pool.availChans lang).isSome) :
    s.teardown.locks = true := by
  rcases hs.gone lang hclosed with hnone | ⟨langs, hdrain⟩
  · rw [hnone] at hsome
    cases hsome
  · rw [hdrain]
    rfl

/-- While `Shutdown` has the mutex, nobody else has it. -/
theorem Orderly.alone {s : ShutdownState} (hs : Orderly s) (ht : s.teardown.locks = true) :
    s.pool.locked = true ∧ ∀ w ∈ s.workers, w.locks = false := by
  have howners := hs.owners
  have hle : s.pool.locked.toNat ≤ 1 := Bool.toNat_le _
  rw [ht, Bool.toNat_true] at howners
  have hzero : s.workers.countP Worker.locks = 0 := by omega
  refine ⟨Bool.toNat_eq_one.mp (by omega), fun w hw => ?_⟩
  exact eq_false_of_ne_true (List.countP_eq_zero.mp hzero w hw)

/-- A worker goes on: the mutex changes hands, no channel comes or goes, and only a
channel that is in the map is fetched. -/
theorem Orderly.replace {s : ShutdownState} (hs : Orderly s) {i : ℕ} {w w' : Worker}
    {p' : ContainerPool} (hi : s.workers[i]? = some w)
    (hlock : (p'.locked = s.pool.locked ∧ w'.locks = w.locks) ∨
      (s.pool.locked = false ∧ w.locks = false ∧ p'.locked = true ∧ w'.locks = true) ∨
      (w.locks = true ∧ p'.locked = false ∧ w'.locks = false))
    (hsome : ∀ l, (p'.availChans l).isSome = (s.pool.availChans l).isSome)
    (hholds : ∀ lang, w'.holds = some lang →
      w.holds = some lang ∨ (s.pool.locked = false ∧ (s.pool.availChans lang).isSome))
    (hunhurt : w'.Unhurt) :
    Orderly { s with pool := p', workers := s.workers.set i w' } := by
  obtain ⟨hlt, rfl⟩ := List.getElem?_eq_some_iff.mp hi
  have hmem : s.workers[i] ∈ s.workers := List.getElem_mem hlt
  constructor
  · have howners := hs.owners
    have hle : s.pool.locked.toNat ≤ 1 := Bool.toNat_le _
    show (s.workers.set i w').countP Worker.locks + s.teardown.locks.toNat = p'.locked.toNat
    rw [List.countP_set hlt]
    have hpos : s.workers[i].locks = true → 0 < s.workers.countP Worker.locks :=
      fun h => List.countP_pos_iff.mpr ⟨_, hmem, h⟩
    rcases hlock with ⟨hp, hw⟩ | ⟨hp, hw, hp', hw'⟩ | ⟨hw, hp', hw'⟩
    · rw [hp, hw]
      by_cases h : s.workers[i].locks = true
      · have := hpos h
        simp only [h, if_true]
        omega
      · simp only [h, Bool.false_eq_true, if_false]
        omega
    · rw [hp, Bool.toNat_false] at howners
      simp only [hw, hw', hp', Bool.toNat_true, if_true, Bool.false_eq_true, if_false]
      omega
    · have := hpos hw
      simp only [hw, hw', hp', Bool.toNat_false, if_true, Bool.false_eq_true, if_false]
      omega
  · intro lang hclosed
    rcases hs.gone lang hclosed with hnone | hdrain
    · left
      show p'.availChans lang = none
      rw [← Option.isNone_iff_eq_none, ← Option.not_isSome, hsome, hnone]
      rfl
    · exact .inr hdrain
  · intro lang hclosed x hx
    rcases List.mem_or_eq_of_mem_set hx with hx | rfl
    · exact hs.unheld lang hclosed x hx
    · intro hheld
      rcases hholds lang hheld with hheld | ⟨hfree, havail⟩
      · exact hs.unheld lang hclosed _ hmem hheld
      · have := (hs.alone (hs.draining hclosed havail)).1
        rw [hfree] at this
        cases this
  · intro x hx
    rcases List.mem_or_eq_of_mem_set hx with hx | rfl
    · exact hs.unhurt x hx
    · exact hunhurt

/-- No channel is closed that a call holds. -/
def ClosesUnused (s : ShutdownState) (act : ShutdownAction) : Prop :=
  ∀ lang, act = .close lang → ∀ w ∈ s.workers, w.holds ≠ some lang

theorem Orderly.giveBack {s s' : ShutdownState} (hs : Orderly s) {i : ℕ}
    {f : PooledContainer → Routine} (hlocks : ∀ c, (f c).locks = false)
    (hholds : ∀ c, (f c).holds = none) (h : giveBack s i f = some s') : Orderly s' := by
  unfold Pool.giveBack at h
  split at h
  · rename_i c hi
    obtain rfl := Option.some.inj h
    refine @Orderly.replace s hs i _ _ s.pool hi (.inl ⟨rfl, hlocks c⟩) (fun _ => rfl)
      (fun lang hl => ?_) trivial
    have hnone : (Worker.call (f c)).holds = none := hholds c
    rw [hnone] at hl
    cases hl
  · cases h

/-- A call that begins neither has the mutex nor a channel. -/
theorem Orderly.start {s : ShutdownState} (hs : Orderly s) (c : Call) :
    Orderly { s with workers := s.workers ++ [.call c.start] } := by
  have hlocks : (Worker.call c.start).locks = false := by cases c <;> rfl
  have hholds : (Worker.call c.start).holds = none := by cases c <;> rfl
  constructor
  · show (s.workers ++ [Worker.call c.start]).countP Worker.locks + s.teardown.locks.toNat =
      s.pool.locked.toNat
    rw [List.countP_append, List.countP_singleton, hlocks]
    exact hs.owners
  · exact hs.gone
  · intro lang hclosed w hw
    rcases List.mem_append.mp hw with hw | hw
    · exact hs.unheld lang hclosed w hw
    · rw [List.mem_singleton.mp hw, hholds]
      exact Option.some_ne_none lang ∘ Eq.symm
  · intro w hw
    rcases List.mem_append.mp hw with hw | hw
    · exact hs.unhurt w hw
    · rw [List.mem_singleton.mp hw]
      trivial

theorem Orderly.go {s : ShutdownState} (hs : Orderly s) {i : ℕ} {a : Answer} {w w' : Worker}
    {p' : ContainerPool} (hi : s.workers[i]? = some w)
    (h : w.advance s.pool s.closed a = some (p', w')) :
    Orderly { s with pool := p', workers := s.workers.set i w' } := by
  have hmem := List.mem_of_getElem? hi
  rcases w.advance_cases (hs.unhurt w hmem) h with
    ⟨r, r', hadv, ⟨rfl, rfl⟩ | ⟨rfl, rfl⟩⟩ | ⟨r, lang, rfl, hclosed, hheld⟩ |
    ⟨r, lang, rfl, hclosed, havail, hlock⟩
  · refine hs.replace hi ?_ (advance_isSome hadv) (fun lang hheld => ?_) ?_
    · rw [Routine.next_locks]
      exact advance_locks hadv
    · exact next_holds hadv hheld
    · exact Routine.next_unhurt r r'
  · refine hs.replace hi (advance_locks hadv) (advance_isSome hadv) (fun lang hheld => ?_) trivial
    cases hheld
  · exact absurd hheld (hs.unheld lang hclosed _ hmem)
  · obtain ⟨htaken, hothers⟩ := hs.alone (hs.draining hclosed havail)
    rcases hlock with hlock | hfree
    · have hother : r.locks = false := hothers _ hmem
      rw [hlock] at hother
      cases hother
    · rw [hfree] at htaken
      cases htaken

/-- **Step lemma**: the steps that close no channel in use keep the invariant. -/
theorem Orderly.step {s s' : ShutdownState} {act : ShutdownAction} (hs : Orderly s)
    (hC : ClosesUnused s act) (h : s.step act = some s') : Orderly s' := by
  cases act with
  | call c =>
    obtain rfl := Option.some.inj h
    exact hs.start c
  | release i => exact hs.giveBack (fun _ => rfl) (fun _ => rfl) h
  | discard i => exact hs.giveBack (fun _ => rfl) (fun _ => rfl) h
  | go i a =>
    simp only [ShutdownState.step] at h
    split at h
    · cases h
    · rename_i w hi
      split at h
      · rename_i p' w' hadv
        obtain rfl := Option.some.inj h
        exact hs.go hi hadv
      · cases h
  | shutdown =>
    simp only [ShutdownState.step] at h
    split at h
    · rename_i hwait
      split_ifs at h with hlocked
      obtain rfl := Option.some.inj h
      have howners := hs.owners
      rw [hwait, eq_false_of_ne_true hlocked] at howners
      refine ⟨?_, fun lang hclosed => .inl ?_, hs.unheld, hs.unhurt⟩
      · show s.workers.countP Worker.locks + 1 = 1
        simp only [Teardown.locks, Bool.toNat_false] at howners
        omega
      · rcases hs.gone lang hclosed with hnone | ⟨langs, hdrain⟩
        · exact hnone
        · rw [hwait] at hdrain
          cases hdrain
    · cases h
  | close lang =>
    simp only [ShutdownState.step] at h
    split at h
    · rename_i langs hclosing
      split_ifs at h with hmem
      obtain rfl := Option.some.inj h
      have howners := hs.owners
      rw [hclosing] at howners
      refine ⟨howners, fun l hl => ?_, fun l hl w hw => ?_, hs.unhurt⟩
      · rcases List.mem_cons.mp hl with rfl | hl
        · exact .inr ⟨_, rfl⟩
        · rcases hs.gone l hl with hnone | ⟨langs', hdrain⟩
          · exact .inl hnone
          · rw [hclosing] at hdrain
            cases hdrain
      · rcases List.mem_cons.mp hl with rfl | hl
        · exact hC l rfl w hw
        · exact hs.unheld l hl w hw
    · cases h
  | drain =>
    simp only [ShutdownState.step] at h
    split at h
    · rename_i lang langs hdraining
      have howners := hs.owners
      have hgone : ∀ l ∈ s.closed, l ≠ lang → s.pool.availChans l = none := by
        intro l hl hne
        rcases hs.gone l hl with hnone | ⟨langs', hdrain⟩
        · exact hnone
        · rw [hdraining] at hdrain
          cases hdrain
          exact absurd rfl hne
      split at h
      · rename_i c p' htake
        obtain rfl := Option.some.inj h
        refine ⟨?_, fun l hl => ?_, hs.unheld, hs.unhurt⟩
        · show _ = p'.locked.toNat
          rw [receive_locked htake]
          exact howners
        · by_cases hne : l = lang
          · subst hne
            exact .inr ⟨langs, hdraining⟩
          · left
            show p'.availChans l = none
            rw [← Option.isNone_iff_eq_none, ← Option.not_isSome, receive_isSome htake,
              hgone l hl hne]
            rfl
      · obtain rfl := Option.some.inj h
        rw [hdraining] at howners
        refine ⟨howners, fun l hl => .inl ?_, hs.unheld, hs.unhurt⟩
        show Function.update s.pool.availChans lang none l = none
        by_cases hne : l = lang
        · rw [hne, Function.update_self]
        · rw [Function.update_of_ne hne]
          exact hgone l hl hne
    · cases h
  | finish =>
    simp only [ShutdownState.step] at h
    split at h
    · rename_i hclosing
      obtain rfl := Option.some.inj h
      have hzero := (hs.alone (by rw [hclosing]; rfl)).2
      refine ⟨?_, fun lang hclosed => .inl ?_, hs.unheld, hs.unhurt⟩
      · show s.workers.countP Worker.locks + 0 = 0
        rw [List.countP_eq_zero.mpr fun w hw => ne_true_of_eq_false (hzero w hw)]
      · rcases hs.gone lang hclosed with hnone | ⟨langs, hdrain⟩
        · exact hnone
        · rw [hclosing] at hdrain
          cases hdrain
    · cases h

/-! ## Main results -/

theorem Warmed.unlocked {p : ContainerPool} (h : Warmed p) : p.locked = false := by
  induction h with
  | new globalCap => rfl
  | @warmUp p _ lang image min max ids _ _ _ _ ih =>
    unfold ContainerPool.warmUp
    refine List.foldlRecOn (motive := fun q : ContainerPool => q.locked = false)
      (ids.take min) _ ih fun q hq id _ => ?_
    unfold ContainerPool.warmUpOne
    rcases hsend : ContainerPool.send { q with issued := id :: q.issued } lang ⟨id, lang⟩ with
      _ | q'
    · simp only [hsend]
      exact hq
    · simp only [hsend]
      exact (send_locked hsend).trans hq

theorem reachable_orderly {s : ShutdownState} (h : shutdownSystem.ReachableVia ClosesUnused s) :
    Orderly s := by
  refine h.invariant (fun s hs => ?_) (fun _ _ _ hs hC hstep => hs.step hC hstep)
  obtain ⟨hwarm, hworkers, hclosed, hwait⟩ := hs
  constructor
  · rw [hworkers, hwait, hwarm.unlocked]
    rfl
  · intro lang hlang
    rw [hclosed] at hlang
    cases hlang
  · intro lang hlang
    rw [hclosed] at hlang
    cases hlang
  · intro w hw
    rw [hworkers] at hw
    cases hw

/-- **Shutdown.**  In every run in which no channel is closed that a call has fetched and
may still use, no call sends on a closed channel or is given the nil container. -/
theorem shutdown_safe {s : ShutdownState} (h : shutdownSystem.ReachableVia ClosesUnused s) :
    ∀ w ∈ s.workers, (∀ p, w ≠ .panicked p) ∧ ∀ lang b, w ≠ .gotNil lang b := by
  intro w hw
  have hunhurt := (reachable_orderly h).unhurt w hw
  constructor
  · rintro p rfl
    exact hunhurt
  · rintro lang b rfl
    exact hunhurt

/-- An acquirer gives its container back after a whole `Shutdown`. -/
theorem shutdown_safe_release :
    ∃ s : ShutdownState, s.workers.length = 1 ∧ s.closed = ["python"] ∧
      ∀ w ∈ s.workers, (∀ p, w ≠ .panicked p) ∧ ∀ lang b, w ≠ .gotNil lang b := by
  have hwarm : Warmed ((newPool 4).warmUp "python" "judge-python" 1 2 ["c1"]) :=
    .warmUp (.new 4) _ _ _ _ _ (by decide) rfl (by decide) (by decide)
  have hinit : shutdownSystem.ReachableVia ClosesUnused
      ⟨(newPool 4).warmUp "python" "judge-python" 1 2 ["c1"], [], [], .waiting⟩ :=
    .init ⟨hwarm, rfl, rfl, rfl⟩
  obtain ⟨s, hrun, hlen, hclosed⟩ : ∃ s, shutdownSystem.runWhen
      (fun s act => match act with
        | .close lang => s.workers.all fun w => w.holds ≠ some lang
        | _ => true)
      ⟨(newPool 4).warmUp "python" "judge-python" 1 2 ["c1"], [], [], .waiting⟩
      [.call (.acquire "python"), .go 0 .ok, .go 0 .ok, .go 0 .ok, .shutdown, .close "python",
        .drain, .finish, .release 0, .go 0 .ok] = some s ∧
      s.workers.length = 1 ∧ s.closed = ["python"] := ⟨_, rfl, rfl, rfl⟩
  refine ⟨s, hlen, hclosed, shutdown_safe (hinit.trans ?_)⟩
  refine TransitionSystem.runVia_of_runWhen (fun s act hcheck => ?_) hrun
  rintro lang rfl w hw
  exact of_decide_eq_true (List.all_eq_true.mp hcheck w hw)

/-- **`Shutdown` closes a channel that an acquirer waits on**: the acquirer, which began
before, is given nil and panics. -/
theorem shutdown_safe_fails :
    ∃ s, shutdownSystem.Reachable s ∧
      s.workers = [.panicked (.nilContainer "python"), .panicked (.sendOnClosed "python")] := by
  have hwarm : Warmed ((newPool 4).warmUp "python" "judge-python" 1 2 ["c1"]) :=
    .warmUp (.new 4) _ _ _ _ _ (by decide) rfl (by decide) (by decide)
  obtain ⟨s, hrun, hworkers⟩ : ∃ s, shutdownSystem.run
      ⟨(newPool 4).warmUp "python" "judge-python" 1 2 ["c1"], [], [], .waiting⟩
      [.call (.acquire "python"), .go 0 .ok,
        -- the health check has the only container
        .call .checkHealth, .go 1 .ok, .go 1 .ok, .go 1 .ok, .go 1 .ok,
        .shutdown, .close "python", .drain, .finish,
        .go 0 .ok, .go 0 .ok, .go 1 (.healthy true), .go 1 .ok] = some s ∧
      s.workers = [.panicked (.nilContainer "python"), .panicked (.sendOnClosed "python")] :=
    ⟨_, rfl, rfl⟩
  exact ⟨s, TransitionSystem.Reachable.run (.init ⟨hwarm, rfl, rfl, rfl⟩) hrun, hworkers⟩

end Pool
