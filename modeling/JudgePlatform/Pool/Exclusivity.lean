/-
# Pool exclusivity

Whatever the interleaving, a container is in at most one place: the in-use map,
one channel, the hand of one routine, or removed.

The proof is a refinement.  `ledger` abstracts a state of the pool to the
ledger of who holds which container id, and `step_moves` matches every step of
the pool with a move of the abstract custody component, which keeps its tokens
unique.  What acquirers have in their possession is then compared with the
in-use map (`Ticketed`): they agree in every reachable state, so no container is
handed out twice and none is handed out after its removal.
-/
import JudgePlatform.Library.Custody
import JudgePlatform.Pool.Runs

namespace Pool

open ContainerPool

/-! ## Places and copies -/

/-- Where a container can be. -/
inductive Place where
  | inUse
  | channel (lang : String)
  | hand (i : ℕ)
  | removed
  deriving DecidableEq

/-- How often the id `t` occurs among the containers. -/
def copies (cs : List PooledContainer) (t : String) : ℕ := cs.countP (·.id = t)

@[simp] theorem copies_nil (t : String) : copies [] t = 0 := rfl

@[simp] theorem copies_cons (c : PooledContainer) (cs : List PooledContainer) (t : String) :
    copies (c :: cs) t = copies cs t + if t = c.id then 1 else 0 := by
  unfold copies
  rw [List.countP_cons]
  simp only [decide_eq_true_eq, eq_comm (a := c.id)]

@[simp] theorem copies_append (cs ds : List PooledContainer) (t : String) :
    copies (cs ++ ds) t = copies cs t + copies ds t := List.countP_append

@[simp] theorem copies_filter_ne (cs : List PooledContainer) (x t : String) :
    copies (cs.filter (·.id ≠ x)) t = if t = x then 0 else copies cs t := by
  unfold copies
  rw [List.countP_filter]
  by_cases h : t = x
  · subst h
    rw [if_pos rfl, List.countP_eq_zero]
    intro c _
    simp
  · rw [if_neg h]
    apply List.countP_congr
    intro c _
    simp only [Bool.and_eq_true, decide_eq_true_eq, ne_eq, and_iff_left_iff_imp]
    rintro rfl
    exact h

theorem hasInUse_iff (p : ContainerPool) (id : String) :
    p.hasInUse id = true ↔ 0 < copies p.inUse id := by
  unfold hasInUse copies
  rw [List.any_eq_true, List.countP_pos_iff]

/-- What routine `i` has in its hand. -/
def handAt (routines : List Routine) (i : ℕ) : List PooledContainer :=
  (routines[i]?.map Routine.hands).getD []

theorem handAt_set {routines : List Routine} {i : ℕ} {r : Routine} (hi : routines[i]? = some r)
    (r' : Routine) (j : ℕ) :
    handAt (routines.set i r') j = if j = i then r'.hands else handAt routines j := by
  have hlt : i < routines.length := (List.getElem?_eq_some_iff.mp hi).1
  unfold handAt
  by_cases h : j = i
  · subst h
    rw [if_pos rfl, List.getElem?_set_self hlt]
    rfl
  · rw [if_neg h, List.getElem?_set_ne (Ne.symm h)]

theorem handAt_start (routines : List Routine) (c : Call) (j : ℕ) :
    handAt (routines ++ [c.start]) j = handAt routines j := by
  unfold handAt
  rcases Nat.lt_trichotomy j routines.length with h | h | h
  · rw [List.getElem?_append_left h]
  · subst h
    rw [List.getElem?_concat_length, List.getElem?_eq_none (le_refl _)]
    cases c <;> rfl
  · rw [List.getElem?_eq_none (by simpa using h), List.getElem?_eq_none (le_of_lt h)]

/-- How often the container with id `t` is at a place. -/
def PoolState.held (s : PoolState) : Place → String → ℕ
  | .inUse => copies s.pool.inUse
  | .channel lang => copies (s.pool.idle lang)
  | .hand i => copies (handAt s.routines i)
  | .removed => copies s.pool.removed

/-- The abstract view of a pool state. -/
def PoolState.ledger (s : PoolState) : Ledger Place String := ⟨s.held, {t | t ∈ s.pool.issued}⟩

/-! ## Every step is a move of the ledger -/

theorem ledger_setLocked (p : ContainerPool) (b : Bool) (routines : List Routine) :
    PoolState.ledger ⟨p.setLocked b, routines⟩ = PoolState.ledger ⟨p, routines⟩ := by
  ext place t
  · cases place <;> rfl
  · rfl

theorem ledger_setTarget (p : ContainerPool) (lang : String) (target : ℕ)
    (routines : List Routine) :
    PoolState.ledger ⟨p.setTarget lang target, routines⟩ = PoolState.ledger ⟨p, routines⟩ := by
  ext place t
  · cases place <;> rfl
  · rfl

section
variable {p q : ContainerPool} {routines : List Routine} {i : ℕ} {r r' : Routine}

/-- The hand of the routine that moves, before the step. -/
theorem held_hand (p : ContainerPool) (hi : routines[i]? = some r) (t : String) :
    (PoolState.ledger ⟨p, routines⟩).held (.hand i) t = copies r.hands t := by
  show copies (handAt routines i) t = _
  unfold handAt
  rw [hi]
  rfl

/-- The hand of the routine that moves, after the step. -/
theorem held_hand_set (q : ContainerPool) (hi : routines[i]? = some r) (r' : Routine)
    (t : String) :
    (PoolState.ledger ⟨q, routines.set i r'⟩).held (.hand i) t = copies r'.hands t := by
  show copies (handAt (routines.set i r') i) t = _
  rw [handAt_set hi, if_pos rfl]

/-- The hands of the other routines. -/
theorem held_hand_ne (p q : ContainerPool) (hi : routines[i]? = some r) (r' : Routine) {j : ℕ}
    (hj : j ≠ i) (t : String) :
    (PoolState.ledger ⟨q, routines.set i r'⟩).held (.hand j) t =
      (PoolState.ledger ⟨p, routines⟩).held (.hand j) t := by
  show copies (handAt (routines.set i r') j) t = copies (handAt routines j) t
  rw [handAt_set hi, if_neg hj]

/-- **Every move of a routine is a move of the ledger.** -/
theorem Move.moves (hl : (PoolState.ledger ⟨p, routines⟩).WellKept)
    (hi : routines[i]? = some r) (h : Move p r r' q) :
    Ledger.Moves (PoolState.ledger ⟨p, routines⟩)
      (PoolState.ledger ⟨q, routines.set i r'⟩) := by
  have hbefore := held_hand p hi
  have hafter := held_hand_set q hi r'
  have hother : ∀ j, Place.hand j ≠ .hand i → ∀ t, _ := fun j hj =>
    held_hand_ne p q hi r' (j := j) (fun h => hj (h ▸ rfl))
  -- a container in the hand is at no other place
  have hnot : ∀ c, r.hands = [c] → ∀ place, place ≠ .hand i →
      (PoolState.ledger ⟨p, routines⟩).held place c.id = 0 := by
    intro c hc place hne
    refine hl.exclusive.eq_zero (p := .hand i) ?_ hne
    rw [hbefore, hc]
    simp
  have same : r'.hands = r.hands → Ledger.Moves (PoolState.ledger ⟨p, routines⟩)
      (PoolState.ledger ⟨p, routines.set i r'⟩) := by
    intro hr
    refine .of_same (fun place t => ?_) rfl
    cases place with
    | hand j =>
      by_cases hj : j = i
      · rw [hj, held_hand_set p hi, hbefore, hr]
      · exact held_hand_ne p p hi r' hj t
    | _ => rfl
  cases h with
  | quiet hands => exact same hands
  | stray c absent ticket before next => exact same (by rw [next, before]; rfl)
  | count lang k short start next => exact same (by rw [next, start]; rfl)
  | retarget lang newTarget langs start next =>
    rw [ledger_setTarget]
    exact same (by rw [next, start]; rfl)
  | receive lang c p₁ taken before after =>
    obtain ⟨ch, ch', -, rfl, -, hidle⟩ := receive_eq_some taken
    refine .of_carried (p := .channel lang) (q := .hand i) (t := c.id) (by simp)
      (fun u => ?_) (fun u => ?_) (fun place h1 h2 u => ?_) rfl
    · show copies (p.idle lang) u = copies ((p.setChan lang ch').idle lang) u + _
      rw [idle_setChan, if_pos rfl, hidle, copies_cons]
    · rw [hafter, hbefore, after, before, copies_cons]
    · cases place with
      | channel l =>
        show copies ((p.setChan lang ch').idle l) u = copies (p.idle l) u
        rw [idle_setChan, if_neg fun h => h1 (congrArg Place.channel h)]
      | hand j => exact hother j h2 u
      | _ => rfl
  | send lang c p₁ put language before after =>
    obtain ⟨ch, ch', -, rfl, -, hbuf⟩ := send_eq_some put
    refine .of_carried (p := .hand i) (q := .channel lang) (t := c.id) (by simp)
      (fun u => ?_) (fun u => ?_) (fun place h1 h2 u => ?_) rfl
    · rw [hafter, hbefore, after, before, copies_cons]
    · show copies ((p.setChan lang ch').idle lang) u = copies (p.idle lang) u + _
      rw [idle_setChan, if_pos rfl, hbuf, copies_append, copies_cons, copies_nil, Nat.zero_add]
    · cases place with
      | channel l =>
        show copies ((p.setChan lang ch').idle l) u = copies (p.idle l) u
        rw [idle_setChan, if_neg fun h => h2 (congrArg Place.channel h)]
      | hand j => exact hother j h1 u
      | _ => rfl
  | register c before next =>
    refine .of_carried (p := .hand i) (q := .inUse) (t := c.id) (by simp)
      (fun u => ?_) (fun u => ?_) (fun place h1 h2 u => ?_) rfl
    · rw [hafter, hbefore, next, before, copies_cons]
      rfl
    · show copies (c :: p.inUse.filter (·.id ≠ c.id)) u = copies p.inUse u + _
      rw [copies_cons, copies_filter_ne]
      by_cases hu : u = c.id
      · have h0 : copies p.inUse c.id = 0 := hnot c before .inUse (by simp)
        rw [hu, if_pos rfl, h0]
      · rw [if_neg hu]
    · cases place with
      | inUse => exact absurd rfl h2
      | hand j => exact hother j h1 u
      | _ => rfl
  | unregister c present ticket before after =>
    have hpos := (hasInUse_iff p c.id).mp present
    have h1 : copies p.inUse c.id = 1 := (hl.exclusive c.id .inUse .inUse hpos hpos).2
    refine .of_carried (p := .inUse) (q := .hand i) (t := c.id) (by simp)
      (fun u => ?_) (fun u => ?_) (fun place h1 h2 u => ?_) rfl
    · show copies p.inUse u = copies (p.inUse.filter (·.id ≠ c.id)) u + _
      rw [copies_filter_ne]
      by_cases hu : u = c.id
      · rw [hu, if_pos rfl, if_pos rfl, h1]
      · rw [if_neg hu, if_neg hu, Nat.add_zero]
    · rw [hafter, hbefore, after, before, copies_cons]
    · cases place with
      | inUse => exact absurd rfl h1
      | hand j => exact hother j h2 u
      | _ => rfl
  | remove c before after =>
    refine .of_carried (p := .hand i) (q := .removed) (t := c.id) (by simp)
      (fun u => ?_) (fun u => ?_) (fun place h1 h2 u => ?_) rfl
    · rw [hafter, hbefore, after, before, copies_cons]
    · exact copies_cons c p.removed u
    · cases place with
      | removed => exact absurd rfl h2
      | hand j => exact hother j h1 u
      | _ => rfl
  | create id lang p₁ fresh before after =>
    obtain ⟨hnew, rfl⟩ := newPooledContainer_eq_some fresh
    refine .of_issued (p := .hand i) (t := id) hnew (fun u => ?_) (fun place h1 u => ?_) ?_
    · rw [hafter, hbefore, after, before, copies_cons]
    · cases place with
      | hand j => exact hother j h1 u
      | _ => rfl
    · exact Set.ext fun t => List.mem_cons

end

/-- A routine that keeps what it has in hand leaves the ledger as it is. -/
theorem ledger_set {p : ContainerPool} {routines : List Routine} {i : ℕ} {r r' : Routine}
    (hi : routines[i]? = some r) (hands : r'.hands = r.hands) :
    PoolState.ledger ⟨p, routines.set i r'⟩ = PoolState.ledger ⟨p, routines⟩ := by
  ext place t
  · cases place with
    | hand j =>
      by_cases hj : j = i
      · rw [hj, held_hand_set p hi, held_hand p hi, hands]
      · exact held_hand_ne p p hi r' hj t
    | _ => rfl
  · rfl

theorem ledger_start (p : ContainerPool) (routines : List Routine) (c : Call) :
    PoolState.ledger ⟨p, routines ++ [c.start]⟩ = PoolState.ledger ⟨p, routines⟩ := by
  ext place t
  · cases place with
    | hand j =>
      show copies (handAt (routines ++ [c.start]) j) t = copies (handAt routines j) t
      rw [handAt_start]
    | _ => rfl
  · rfl

/-- **Refinement.**  Every step of the pool is a move of the custody component. -/
theorem step_moves {s s' : PoolState} {act : PoolAction} (hs : Sorted s)
    (hl : s.ledger.WellKept) (h : s.step act = some s') : Ledger.Moves s.ledger s'.ledger := by
  rcases hs.step_moves h with ⟨c, -, -, rfl⟩ | ⟨i, c, r', hi, hr', rfl⟩ |
    ⟨i, a, r, r', q, b, -, hi, -, hmove, rfl⟩
  · rw [ledger_start]
    exact .stay _
  · have hands : r'.hands = (Routine.acquired c).hands := by
      rcases hr' with ⟨-, rfl⟩ | ⟨-, rfl⟩ <;> rfl
    rw [ledger_set hi hands]
    exact .stay _
  · rw [ledger_setLocked]
    exact hmove.moves hl hi

/-! ## Start-up keeps the ledger -/

theorem warmUpOne_moves (p : ContainerPool) (lang id : String) (hnew : id ∉ p.issued) :
    Ledger.Moves (PoolState.ledger ⟨p, []⟩) (PoolState.ledger ⟨warmUpOne lang p id, []⟩) := by
  have hissued : {t | t ∈ id :: p.issued} = insert id {t | t ∈ p.issued} :=
    Set.ext fun t => List.mem_cons
  unfold warmUpOne
  rcases hsend : ContainerPool.send { p with issued := id :: p.issued } lang ⟨id, lang⟩ with _ | p'
  · simp only [hsend]
    refine .of_issued (p := .removed) (t := id) hnew (fun u => ?_) (fun place h1 u => ?_) hissued
    · exact copies_cons ⟨id, lang⟩ p.removed u
    · cases place with
      | removed => exact absurd rfl h1
      | _ => rfl
  · simp only [hsend]
    obtain ⟨ch, ch', -, rfl, -, hbuf⟩ := send_eq_some hsend
    refine .of_issued (p := .channel lang) (t := id) hnew (fun u => ?_)
      (fun place h1 u => ?_) hissued
    · show copies ((setChan _ lang ch').idle lang) u = copies (p.idle lang) u + _
      rw [idle_setChan, if_pos rfl, hbuf, copies_append, copies_cons, copies_nil, Nat.zero_add]
      rfl
    · cases place with
      | channel l =>
        show copies ((setChan _ lang ch').idle l) u = copies (p.idle l) u
        rw [idle_setChan, if_neg fun h => h1 (congrArg Place.channel h)]
        rfl
      | _ => rfl

theorem warmUpOne_issued (p : ContainerPool) (lang id : String) :
    (warmUpOne lang p id).issued = id :: p.issued := by
  unfold warmUpOne
  rcases hsend : ContainerPool.send { p with issued := id :: p.issued } lang ⟨id, lang⟩ with _ | p'
  · simp only [hsend]
    rfl
  · simp only [hsend]
    obtain ⟨ch, ch', -, rfl, -, -⟩ := send_eq_some hsend
    rfl

/-- `WarmUp`'s loop issues one new container after the other. -/
theorem foldl_warmUpOne_wellKept (lang : String) (ids : List String) :
    ∀ p : ContainerPool, (PoolState.ledger ⟨p, []⟩).WellKept → (∀ id ∈ ids, id ∉ p.issued) →
      ids.Nodup → (PoolState.ledger ⟨ids.foldl (warmUpOne lang) p, []⟩).WellKept := by
  induction ids with
  | nil => exact fun p hp _ _ => hp
  | cons id ids ih =>
    intro p hp hnew hnodup
    have hid := hnew id List.mem_cons_self
    refine ih _ ((warmUpOne_moves p lang id hid).wellKept hp) ?_ hnodup.of_cons
    intro x hx
    rw [warmUpOne_issued, List.mem_cons, not_or]
    refine ⟨?_, hnew x (List.mem_cons_of_mem id hx)⟩
    rintro rfl
    exact (List.nodup_cons.mp hnodup).1 hx

theorem Warmed.wellKept {p : ContainerPool} (h : Warmed p) :
    (PoolState.ledger ⟨p, []⟩).WellKept := by
  induction h with
  | new globalCap =>
    have hzero : ∀ place t, (PoolState.ledger ⟨newPool globalCap, []⟩).held place t = 0 := by
      intro place t
      cases place <;> rfl
    refine ⟨fun t p q hp _ => ?_, fun p t hp => ?_⟩
    all_goals
      rw [hzero] at hp
      exact absurd hp (Nat.lt_irrefl 0)
  | @warmUp p _ lang image min max ids _ hlang hfresh hnodup ih =>
    unfold ContainerPool.warmUp
    refine foldl_warmUpOne_wellKept lang _ _ ?_
      (fun id hid => hfresh id (List.mem_of_mem_take hid)) (hnodup.sublist (List.take_sublist _ _))
    -- a new empty channel holds nothing
    refine Eq.subst (motive := Ledger.WellKept) ?_ ih
    ext place t
    · cases place with
      | channel l =>
        show copies (p.idle l) t = copies (ContainerPool.idle _ l) t
        unfold idle
        by_cases hl : l = lang
        · subst hl
          simp only [hlang, Function.update_self, Channel.buffer_make]
        · simp only [Function.update_of_ne hl]
      | _ => rfl
    · rfl

theorem reachable_wellKept {s : PoolState} (h : system.Reachable s) : s.ledger.WellKept :=
  h.simulation PoolState.ledger (fun _ hs => reachable_sorted hs)
    (fun s hs => by
      obtain ⟨pool, routines⟩ := s
      obtain ⟨hwarm, rfl⟩ := hs
      exact hwarm.wellKept)
    (fun _ _ _ hs hl _ hstep => step_moves hs hl hstep)
    (fun _ _ hx hm => hm.wellKept hx)

/-! ## What acquirers possess -/

/-- The in-use map holds exactly the containers that acquirers possess. -/
def Ticketed (s : PoolState) : Prop :=
  ∀ c, total (fun r => r.tickets.count c) s.routines = s.pool.inUse.count c

theorem copies_pos_of_mem {cs : List PooledContainer} {c : PooledContainer} (h : c ∈ cs) :
    0 < copies cs c.id := List.countP_pos_iff.mpr ⟨c, h, decide_eq_true rfl⟩

theorem count_le_copies (cs : List PooledContainer) (c : PooledContainer) :
    cs.count c ≤ copies cs c.id := by
  unfold List.count copies
  apply List.countP_mono_left
  intro d _ hd
  rw [beq_iff_eq.mp hd]
  exact decide_eq_true rfl

/-- What a ticket is for is in use. -/
theorem Ticketed.mem {s : PoolState} (ht : Ticketed s) {i : ℕ} {r : Routine}
    {c : PooledContainer} (hi : s.routines[i]? = some r) (hc : c ∈ r.tickets) :
    c ∈ s.pool.inUse := by
  have hle := le_total (fun r => r.tickets.count c) hi
  rw [ht c] at hle
  exact List.count_pos_iff.mp (lt_of_lt_of_le (List.count_pos_iff.mpr hc) hle)

/-- Taking a container that is in use out of the map takes nothing else. -/
theorem count_filter_ne {cs : List PooledContainer} {c d : PooledContainer} (hc : c ∈ cs)
    (hone : copies cs c.id ≤ 1) :
    (cs.filter (·.id ≠ c.id)).count d + [c].count d = cs.count d := by
  by_cases hd : d.id = c.id
  · have hout : (cs.filter (·.id ≠ c.id)).count d = 0 := by
      rw [List.count_eq_zero, List.mem_filter]
      rintro ⟨-, hne⟩
      exact of_decide_eq_true hne hd
    rw [hout, Nat.zero_add]
    by_cases hcd : c = d
    · subst hcd
      have hpos := List.count_pos_iff.mpr hc
      have hle := count_le_copies cs c
      rw [List.count_singleton_self]
      omega
    · -- another container of the same id would be a second copy
      rw [List.count_singleton, if_neg (by simpa using hcd), eq_comm, List.count_eq_zero]
      intro hmem
      have htwo : 2 ≤ copies cs c.id := by
        have hsub : [c, d].Subperm cs :=
          List.subperm_of_subset (by simpa using hcd) (by simp [hc, hmem])
        have hle : copies [c, d] c.id ≤ copies cs c.id := hsub.countP_le _
        simpa [hd] using hle
      omega
  · have hcd : c ≠ d := fun h => hd (h ▸ rfl)
    rw [List.count_filter (by simpa using hd), List.count_singleton, if_neg (by simpa using hcd),
      Nat.add_zero]

/-- In the hand of a routine, a container is not in use. -/
theorem not_inUse_of_hand {p : ContainerPool} {routines : List Routine} {i : ℕ} {r : Routine}
    {c : PooledContainer} (hl : (PoolState.ledger ⟨p, routines⟩).WellKept)
    (hi : routines[i]? = some r) (hc : r.hands = [c]) : copies p.inUse c.id = 0 := by
  refine hl.exclusive.eq_zero (p := .hand i) (q := .inUse) ?_ (by simp)
  rw [held_hand p hi, hc]
  simp

/-- Registering a container that is not in use changes nothing else in the map. -/
theorem filter_ne_eq_self {cs : List PooledContainer} {id : String} (h : copies cs id = 0) :
    cs.filter (·.id ≠ id) = cs := by
  rw [List.filter_eq_self]
  intro c hc
  rw [decide_eq_true_eq]
  rintro rfl
  have := copies_pos_of_mem hc
  omega

theorem Move.ticketed {p q : ContainerPool} {routines : List Routine} {i : ℕ} {r r' : Routine}
    (hl : (PoolState.ledger ⟨p, routines⟩).WellKept) (ht : Ticketed ⟨p, routines⟩)
    (hi : routines[i]? = some r) (h : Move p r r' q) : Ticketed ⟨q, routines.set i r'⟩ := by
  intro d
  have hset := total_set (fun r => r.tickets.count d) hi r'
  have hold := ht d
  simp only at hset hold ⊢
  have keep : r'.tickets = r.tickets → q.inUse = p.inUse →
      total (fun r => r.tickets.count d) (routines.set i r') = q.inUse.count d := by
    intro htick hq
    rw [htick] at hset
    rw [hq]
    omega
  cases h with
  | quiet hands tickets => exact keep tickets rfl
  | stray c absent ticket =>
    -- an acquirer's container is in use
    have hmem : c ∈ p.inUse := ht.mem hi (by rw [ticket]; exact List.mem_cons_self)
    have hpos := (hasInUse_iff p c.id).mpr (copies_pos_of_mem hmem)
    rw [absent] at hpos
    cases hpos
  | receive lang c p₁ taken before after label ticket ticket' =>
    obtain ⟨_, _, _, rfl, _, _⟩ := receive_eq_some taken
    exact keep (ticket'.trans ticket.symm) rfl
  | send lang c p₁ put language before after ticket ticket' =>
    obtain ⟨_, _, _, rfl, _, _⟩ := send_eq_some put
    exact keep (ticket'.trans ticket.symm) rfl
  | register c before next ticket =>
    have ticket' : r'.tickets = [c] := by
      rw [next]
      rfl
    rw [ticket, ticket', List.count_nil] at hset
    show _ = (c :: p.inUse.filter (·.id ≠ c.id)).count d
    rw [filter_ne_eq_self (not_inUse_of_hand hl hi before), ← List.singleton_append,
      List.count_append]
    omega
  | unregister c present ticket before after ticket' =>
    have hmem : c ∈ p.inUse := ht.mem hi (by rw [ticket]; exact List.mem_cons_self)
    have hone := hl.exclusive.le_one .inUse c.id
    have hcount := count_filter_ne (d := d) hmem hone
    rw [ticket, ticket', List.count_nil] at hset
    show _ = (p.inUse.filter (·.id ≠ c.id)).count d
    omega
  | remove c before after ticket ticket' => exact keep (ticket'.trans ticket.symm) rfl
  | create id lang p₁ fresh before after ticket ticket' =>
    obtain ⟨-, rfl⟩ := newPooledContainer_eq_some fresh
    exact keep (ticket'.trans ticket.symm) rfl
  | count lang k short start next => exact keep (by rw [next, start]; rfl) rfl
  | retarget lang newTarget langs start next => exact keep (by rw [next, start]; rfl) rfl

theorem Ticketed.step {s s' : PoolState} {act : PoolAction} (hs : Sorted s)
    (hl : s.ledger.WellKept) (ht : Ticketed s) (h : s.step act = some s') : Ticketed s' := by
  rcases hs.step_moves h with ⟨c, -, -, rfl⟩ | ⟨i, c, r', hi, hr', rfl⟩ |
    ⟨i, a, r, r', q, b, -, hi, -, hmove, rfl⟩
  · intro t
    show total _ (s.routines ++ [c.start]) = _
    rw [total_start _ _ _ (by cases c <;> rfl)]
    exact ht t
  · intro t
    have hset := total_set (fun r => r.tickets.count t) hi r'
    have htick : r'.tickets = (Routine.acquired c).tickets := by
      rcases hr' with ⟨-, rfl⟩ | ⟨-, rfl⟩ <;> rfl
    have hold := ht t
    simp only [htick] at hset hold ⊢
    omega
  · have hq : Ticketed ⟨q, s.routines.set i r'⟩ := Move.ticketed hl ht hi hmove
    exact hq

theorem warmUpOne_inUse (p : ContainerPool) (lang id : String) :
    (warmUpOne lang p id).inUse = p.inUse := by
  unfold warmUpOne
  rcases hsend : ContainerPool.send { p with issued := id :: p.issued } lang ⟨id, lang⟩ with _ | p'
  · simp only [hsend]
    rfl
  · simp only [hsend]
    obtain ⟨ch, ch', -, rfl, -, -⟩ := send_eq_some hsend
    rfl

/-- Nothing is in use when the pool starts. -/
theorem Warmed.inUse_eq_nil {p : ContainerPool} (h : Warmed p) : p.inUse = [] := by
  induction h with
  | new globalCap => rfl
  | @warmUp p _ lang image min max ids _ _ _ _ ih =>
    unfold ContainerPool.warmUp
    refine List.foldlRecOn (motive := fun q : ContainerPool => q.inUse = []) (ids.take min) _ ih ?_
    intro q hq id _
    rw [warmUpOne_inUse, hq]

theorem reachable_ticketed {s : PoolState} (h : system.Reachable s) : Ticketed s := by
  induction h with
  | @init s hinit =>
    obtain ⟨pool, routines⟩ := s
    obtain ⟨hwarm, rfl⟩ := hinit
    intro t
    show 0 = pool.inUse.count t
    rw [hwarm.inUse_eq_nil]
    rfl
  | step hs _ hstep ih => exact ih.step (reachable_sorted hs) (reachable_wellKept hs) hstep

/-! ## Main results -/

/-- **A container in the possession of an acquirer is in the in-use map.** -/
theorem acquired_inUse {s : PoolState} (h : system.Reachable s) {i : ℕ} {c : PooledContainer}
    (hi : s.routines[i]? = some (.acquired c)) : c ∈ s.pool.inUse :=
  (reachable_ticketed h).mem hi (List.mem_singleton_self c)

/-- No two acquirers possess one container. -/
theorem acquired_unique {s : PoolState} (h : system.Reachable s) {i j : ℕ}
    {c d : PooledContainer} (hi : s.routines[i]? = some (.acquired c))
    (hj : s.routines[j]? = some (.acquired d)) (hcd : c.id = d.id) : i = j := by
  have hone : copies s.pool.inUse c.id ≤ 1 :=
    (reachable_wellKept h).exclusive.le_one .inUse c.id
  -- both are in the in-use map, which holds one container of the id only
  have heq : c = d := by
    by_contra hne
    have hc := acquired_inUse h hi
    have hd := acquired_inUse h hj
    have hcount := count_filter_ne (d := d) hc hone
    have hout : d ∉ s.pool.inUse.filter (·.id ≠ c.id) := by
      rw [List.mem_filter]
      rintro ⟨-, hd'⟩
      exact of_decide_eq_true hd' hcd.symm
    rw [List.count_eq_zero.mpr hout, List.count_singleton, if_neg (by simpa using hne)] at hcount
    have := List.count_pos_iff.mpr hd
    omega
  subst heq
  by_contra hne
  -- without routine `i`, the ticket of routine `j` is still there
  have hset := total_set (fun r => r.tickets.count c) hi .done
  have hj' : (s.routines.set i .done)[j]? = some (.acquired c) := by
    rw [List.getElem?_set_ne hne]
    exact hj
  have hle := le_total (fun r => r.tickets.count c) hj'
  have htick := reachable_ticketed h c
  have hle' := count_le_copies s.pool.inUse c
  have hc : (Routine.acquired c).tickets.count c = 1 := List.count_singleton_self
  have hdone : Routine.done.tickets.count c = 0 := rfl
  simp only [hc, hdone] at hset hle
  omega

/-- **Pool exclusivity.**  In every reachable state every container is at most
once in at most one place; no two acquirers possess the same container, and none
possesses a removed one. -/
theorem pool_exclusive {s : PoolState} (h : system.Reachable s) :
    Ledger.Exclusive s.held ∧
      (∀ (i j : ℕ) (c d : PooledContainer), s.routines[i]? = some (.acquired c) →
        s.routines[j]? = some (.acquired d) → c.id = d.id → i = j) ∧
      ∀ (i : ℕ) (c : PooledContainer), s.routines[i]? = some (.acquired c) →
        s.held .removed c.id = 0 := by
  have hex : Ledger.Exclusive s.held := (reachable_wellKept h).exclusive
  refine ⟨hex, fun i j c d hi hj hcd => acquired_unique h hi hj hcd, fun i c hi => ?_⟩
  exact hex.eq_zero (p := .inUse) (copies_pos_of_mem (acquired_inUse h hi)) (by simp)

/-- A pool warmed up with one Python container. -/
def pythonPool : ContainerPool := (newPool 4).warmUp "python" "judge-python" 1 2 ["c1"]

theorem pythonPool_warmed : Warmed pythonPool :=
  .warmUp (.new 4) _ _ _ _ _ (by decide) rfl (by decide) (by decide)

/-- The container of `pythonPool` after an `Acquire` has taken it. -/
theorem pool_exclusive_acquired :
    ∃ s : PoolState, s.routines = [.acquired ⟨"c1", "python"⟩] ∧ Ledger.Exclusive s.held ∧
      s.held .removed "c1" = 0 := by
  obtain ⟨s, hs, hr⟩ : ∃ s, system.run ⟨pythonPool, []⟩
      [.call (.acquire "python"), .go 0 .ok, .go 0 .ok, .go 0 .ok] = some s ∧
      s.routines = [.acquired ⟨"c1", "python"⟩] := ⟨_, rfl, rfl⟩
  have h : system.Reachable s :=
    TransitionSystem.Reachable.run (.init ⟨pythonPool_warmed, rfl⟩) hs
  obtain ⟨hex, -, hremoved⟩ := pool_exclusive h
  exact ⟨s, hr, hex, hremoved 0 ⟨"c1", "python"⟩ (by rw [hr]; rfl)⟩

end Pool
