/-
# What one step of the pool can do

Every step of every routine is one of the moves of `Move`: it takes a container
out of a channel, puts one into a channel, registers or unregisters one in the
in-use map, removes one, creates one, reads the counts of a language, changes a
target, or leaves all containers where they are.  `advance_move` is the one
place where the routines' program text is inspected; every invariant below is a
case analysis on `Move`.

* `hands` is the container a routine carries between two places.
* `tickets` is the container an acquirer has been given and not yet given back.
* `pending lang` is how many containers of a language the routine is still
  going to create.
-/
import JudgePlatform.Pool.ContainerPool

namespace Pool

open ContainerPool

/-! ## What a routine holds -/

namespace Routine

/-- The container in the hand of a pool routine. -/
def hands : Routine → List PooledContainer
  | acquireRegister _ c => [c]
  | releaseSend c | releaseRemove c => [c]
  | discardRemove c _ | discardSend c | discardDrop c | discardLeak c => [c]
  | convergeSend _ c _ _ | convergeDrop _ c _ _ | convergeRemove _ c _ _ => [c]
  | healthInspect _ _ c _ _ | healthReturn _ _ c _ _ | healthRemove _ _ c _ _ => [c]
  | healthSend _ _ c _ _ | healthDrop _ _ c _ _ => [c]
  | _ => []

/-- The container an acquirer has been handed and has not given back. -/
def tickets : Routine → List PooledContainer
  | acquired c | release c | discard c => [c]
  | _ => []

/-- The containers of a language that the routine is still going to create. -/
def pending (lang : String) : Routine → ℕ
  | discardCreate l _ | healthCreate l _ _ _ => if l = lang then 1 else 0
  | convergeCreate l left _ | convergeSend l _ left _ | convergeDrop l _ left _ =>
    if l = lang then left else 0
  | _ => 0

/-- The language a routine's hand is about, where the routine names it apart
from the container. -/
def label : Routine → Option String
  | acquireRegister l _ => some l
  | convergeSend l _ _ _ | convergeDrop l _ _ _ | convergeRemove l _ _ _ => some l
  | healthInspect l _ _ _ _ | healthReturn l _ _ _ _ | healthRemove l _ _ _ _ => some l
  | healthSend l _ _ _ _ | healthDrop l _ _ _ _ => some l
  | _ => none

/-- The container in hand is of the language the routine works on. -/
def Labelled (r : Routine) : Prop := ∀ l ∈ r.label, ∀ c ∈ r.hands, c.language = l

end Routine

/-- The moves of a routine from `r` to `r'` over the pool `p`, up to the mutex. -/
inductive Move (p : ContainerPool) (r r' : Routine) : ContainerPool → Prop
  | quiet (hands : r'.hands = r.hands) (tickets : r'.tickets = r.tickets)
      (pending : ∀ l, r'.pending l ≤ r.pending l) : Move p r r' p
  /-- `Release` or `Discard` of a container that is not in use does nothing. -/
  | stray (c : PooledContainer) (absent : p.hasInUse c.id = false)
      (ticket : r.tickets = [c]) (before : r.hands = []) (next : r' = .done) : Move p r r' p
  | receive (lang : String) (c : PooledContainer) (p₁ : ContainerPool)
      (taken : p.receive lang = some (c, p₁))
      (before : r.hands = []) (after : r'.hands = [c]) (label : ∀ l ∈ r'.label, l = lang)
      (ticket : r.tickets = []) (ticket' : r'.tickets = [])
      (pending : ∀ l, r'.pending l ≤ r.pending l) : Move p r r' p₁
  | send (lang : String) (c : PooledContainer) (p₁ : ContainerPool)
      (put : p.send lang c = some p₁)
      (language : c.language = lang) (before : r.hands = [c]) (after : r'.hands = [])
      (ticket : r.tickets = []) (ticket' : r'.tickets = [])
      (pending : ∀ l, r'.pending l ≤ r.pending l) : Move p r r' p₁
  | register (c : PooledContainer) (before : r.hands = [c]) (next : r' = .acquired c)
      (ticket : r.tickets = []) : Move p r r' (p.setInUse c)
  | unregister (c : PooledContainer) (present : p.hasInUse c.id = true)
      (ticket : r.tickets = [c]) (before : r.hands = []) (after : r'.hands = [c])
      (ticket' : r'.tickets = []) (pending : ∀ l, r'.pending l = 0) :
      Move p r r' (p.deleteInUse c.id)
  /-- The removed container may be about to be replaced by a new one. -/
  | remove (c : PooledContainer) (before : r.hands = [c]) (after : r'.hands = [])
      (ticket : r.tickets = []) (ticket' : r'.tickets = [])
      (pending : ∀ l, r'.pending l ≤ r.pending l + if c.language = l then 1 else 0) :
      Move p r r' (p.removeContainer c)
  | create (id lang : String) (p₁ : ContainerPool) (fresh : p.newPooledContainer id = some p₁)
      (before : r.hands = []) (after : r'.hands = [⟨id, lang⟩])
      (ticket : r.tickets = []) (ticket' : r'.tickets = [])
      (pending : ∀ l, r'.pending l + (if lang = l then 1 else 0) ≤ r.pending l) :
      Move p r r' p₁
  /-- `convergeLang` has read a shortfall. -/
  | count (lang : String) (k : Caller)
      (short : p.inUseCount lang + p.availCount lang < p.targets lang)
      (start : r = .converge lang k)
      (next : r' = .convergeCreate lang
        (p.targets lang - (p.inUseCount lang + p.availCount lang)) k) : Move p r r' p
  | retarget (lang : String) (newTarget : ℕ) (langs : List String)
      (start : r = .autoscaleSet lang newTarget langs)
      (next : r' = .converge lang (.autoscaler langs)) : Move p r r' (p.setTarget lang newTarget)

/-- The pool after a step is the pool of the move with the mutex up or down. -/
def Steps (p : ContainerPool) (r r' : Routine) (p' : ContainerPool) : Prop :=
  ∃ q b, Move p r r' q ∧ p' = q.setLocked b

section
variable {p q : ContainerPool} {r r' : Routine}

/-- A move that does not touch the mutex. -/
theorem Steps.of (h : Move p r r' q) : Steps p r r' q := ⟨q, q.locked, h, rfl⟩

/-- A routine that goes on with its caller gives nothing up and holds nothing. -/
theorem Move.resume (k : Caller) (hands : r.hands = []) (tickets : r.tickets = []) :
    Move p r k.resume p :=
  Move.quiet (by cases k <;> exact hands.symm) (by cases k <;> exact tickets.symm)
    (by cases k <;> exact fun l => Nat.zero_le _)

/-- One container of the shortfall `convergeLang` has read. -/
theorem Move.fill (lang id : String) (left : ℕ) (k : Caller)
    (fresh : p.newPooledContainer id = some q) :
    Move p (.convergeCreate lang (left + 1) k) (.convergeSend lang ⟨id, lang⟩ left k) q := by
  refine .create id lang q fresh rfl rfl rfl rfl fun l => ?_
  simp only [Routine.pending]
  split_ifs <;> omega

/-- `checkHealth` replaces an unhealthy container by one of the same language. -/
theorem Move.replace (lang image : String) (c : PooledContainer) (left : ℕ) (langs : List String)
    (hr : (Routine.healthRemove lang image c left langs).Labelled) :
    Move p (.healthRemove lang image c left langs) (.healthCreate lang image left langs)
      (p.removeContainer c) := by
  refine .remove c rfl rfl rfl rfl fun l => ?_
  rw [hr lang rfl c (List.mem_singleton_self c)]
  exact Nat.le_add_left _ _

/-- `convergeLang` keeps the lock while it removes a container that found no room. -/
theorem Steps.overflow (lang : String) (c : PooledContainer) (left : ℕ) (k : Caller) :
    Steps p (.convergeSend lang c left k) (.convergeDrop lang c left k) (p.setLocked true) :=
  ⟨p, true, .quiet rfl rfl fun _ => le_rfl, rfl⟩

end

/-- **Inversion of `advance`**: every step of a routine is one of the moves. -/
theorem advance_steps {p p' : ContainerPool} {r r' : Routine} {a : Answer} (hr : r.Labelled)
    (h : r.advance p a = some (p', r')) : Steps p r r' p' := by
  revert h
  fun_cases Routine.advance p r a
  all_goals
    intro h
    first
      | cases h; done
      | obtain ⟨rfl, rfl⟩ := Prod.mk.inj (Option.some.inj h)
  all_goals first
    -- nothing changes hands
    | exact .of (.quiet rfl rfl fun _ => le_rfl)
    | exact .of (.quiet rfl rfl fun _ => Nat.zero_le _)
    | exact .of (.stray _ (eq_false_of_ne_true (by assumption)) rfl rfl rfl)
    | exact .of (.resume _ rfl rfl)
    | exact .overflow _ _ _ _
    -- the channels
    | exact .of (.receive _ _ _ (by assumption) rfl rfl (by rintro _ ⟨⟩; rfl) rfl rfl
        fun _ => le_rfl)
    | exact ⟨_, _, .send _ _ _ (by assumption) rfl rfl rfl rfl rfl fun _ => le_rfl, rfl⟩
    | exact .of (.send _ _ _ (by assumption) rfl rfl rfl rfl rfl fun _ => le_rfl)
    | exact .of (.send _ _ _ (by assumption) (hr _ rfl _ (List.mem_singleton_self _))
        rfl rfl rfl rfl fun _ => le_rfl)
    -- the in-use map
    | exact .of (.register _ rfl rfl rfl)
    | exact ⟨_, _, .unregister _ (by assumption) rfl rfl rfl rfl fun _ => rfl, rfl⟩
    | exact .of (.unregister _ (by assumption) rfl rfl rfl rfl fun _ => rfl)
    -- Docker
    | exact ⟨_, _, .remove _ rfl rfl rfl rfl fun _ => Nat.le_add_right _ _, rfl⟩
    | exact .of (.remove _ rfl rfl rfl rfl fun _ => Nat.le_add_right _ _)
    | exact .of (.remove _ rfl rfl rfl rfl fun _ => Nat.le_add_left _ _)
    | exact .of (.replace _ _ _ _ _ hr)
    | exact .of (.fill _ _ _ _ (by assumption))
    | exact .of (.create _ _ _ (by assumption) rfl rfl rfl rfl fun _ => (Nat.zero_add _).le)
    -- the targets
    | exact .of (.count _ _ (by assumption) rfl rfl)
    | exact .of (.retarget _ _ _ rfl rfl)

end Pool
