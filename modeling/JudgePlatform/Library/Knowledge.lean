/-
# What calls know of the store

A call learns about the store from the answers it hears, and the store moves on.  Some of what
it learns stays true whatever the other calls do: who owns a document, when it was created.

* `Obeys.grows` : while a program runs, its view only grows.
* `reachable_upheld` : an invariant of the store, and what answers tell while it holds.
* `reachable_known` : what an answer tells, and no request that is permitted undoes, is known
  to the call in every interleaving.
* `reachable_recorded` : what the requests of the calls that were made leave of the store.
* `reachable_spared` : what none of these requests can change is as it was.
-/
import JudgePlatform.Library.Program

namespace Program

variable {Request : Type} {Reply : Request → Type} {ε α View : Type}
  {look : View → (r : Request) → Reply r → View} {P : View → Request → Prop}
  {Q : View → Except ε α → Prop} {v : View}

/-- **The rule of growing views**: where every answer adds to the view, a specification may be
shown of the views that lie above the first. -/
theorem Obeys.grows {R : View → View → Prop} (hrefl : ∀ v, R v v)
    (htrans : ∀ u v w, R u v → R v w → R u w) (hlook : ∀ v r x, R v (look v r x))
    {p : Program Reply ε α}
    (hp : Obeys look (fun w r => R v w → P w r) (fun w x => R v w → Q w x) v p) :
    Obeys look P Q v p := by
  suffices hgoal : ∀ u, R v u →
      Obeys look (fun w r => R v w → P w r) (fun w x => R v w → Q w x) u p →
      Obeys look P Q u p from hgoal v (hrefl v) hp
  clear hp
  intro u
  induction p generalizing u with
  | done a => exact fun hu hp => hp hu
  | fail e => exact fun hu hp => hp hu
  | ask r next ih =>
    intro hu hp
    exact ⟨hp.1 hu, fun x => ih _ _ (htrans _ _ _ hu (hlook u r x)) (hp.2.1 x),
      fun e => ih _ _ hu (hp.2.2 e)⟩

end Program

namespace Service

variable {Operation Store Choice View Request : Type} {Reply : Request → Type} {ε α : Type}
  {S : Service Operation Store Choice View Reply ε α} {Init : Store → Prop}
  {P : Operation → View → Request → Prop} {Q : Operation → View → Except ε α → Prop}
  {C : Config Operation Store View Reply ε α → Action Operation Choice → Prop}
  {s s' : Config Operation Store View Reply ε α} {a : Action Operation Choice}
  {F : View → Store → Prop}

/-- The operations that were called, in the order they started. -/
def Config.ops (s : Config Operation Store View Reply ε α) : List Operation := s.calls.map Call.op

/-- A step calls one more operation or none. -/
theorem ops_subset (h : S.step s a = some s') : s.ops ⊆ s'.ops := by
  obtain ⟨op, -, rfl⟩ | ⟨i, c, op, v, r, next, -, hi, rfl⟩ := step_cases h
  · show s.ops ⊆ (s.calls ++ [S.begin op]).map Call.op
    rw [List.map_append]
    exact List.subset_append_left _ _
  · have hop : (s.calls.map Call.op)[i]? = some op := by
      rw [List.getElem?_map, hi]
      rfl
    obtain ⟨hlt, heq⟩ := List.getElem?_eq_some_iff.mp hop
    show s.ops ⊆ (s.calls.set i _).map Call.op
    rw [List.map_set]
    show s.ops ⊆ (s.calls.map Call.op).set i op
    rw [← heq, List.set_getElem_self]
    exact List.Subset.refl _

/-- An invariant `K` of the store, and what calls know while it holds: each request that is
permitted to an operation in `A` keeps both. -/
structure Upheld (S : Service Operation Store Choice View Reply ε α) (A : Operation → Prop)
    (P : Operation → View → Request → Prop) (K : Store → Prop) (F : View → Store → Prop) :
    Prop where
  blank : ∀ st, K st → F S.blank st
  served : ∀ c st op v r, A op → P op v r → K st → F v st → K (S.serve c st r).2
  heard : ∀ c st op v r, A op → P op v r → K st → F v st →
    F (S.hear v r (S.serve c st r).1) (S.serve c st r).2
  kept : ∀ c st op v w r, A op → P op v r → K st → F v st → F w st → F w (S.serve c st r).2

/-- **The store and the calls keep faith**: the invariant of the store and what each call knows
hold in every interleaving of operations in `A`. -/
theorem reachable_upheld {A : Operation → Prop} {K : Store → Prop}
    (h : ∀ op, (S.program op).Obeys S.look (P op) (Q op) S.blank) (hU : Upheld S A P K F)
    (hinit : ∀ st, Init st → K st) (hs : (S.system Init).ReachableVia C s)
    (hops : ∀ op ∈ s.ops, A op) : K s.store ∧ ∀ c ∈ s.calls, F c.view s.store := by
  induction hs with
  | init h =>
    refine ⟨hinit _ h.1, fun c hc => ?_⟩
    rw [h.2] at hc
    exact absurd hc List.not_mem_nil
  | step hs _ hstep ih =>
    obtain ⟨hK, hF⟩ := ih fun op hop => hops op (ops_subset hstep hop)
    obtain ⟨op, -, rfl⟩ | ⟨i, e, op, v, r, next, -, hi, rfl⟩ := step_cases hstep
    · refine ⟨hK, fun c hc => ?_⟩
      rcases List.mem_append.mp hc with hc | hc
      · exact hF c hc
      · rw [List.mem_singleton.mp hc]
        exact hU.blank _ hK
    · have hmem := List.mem_of_getElem? hi
      have hop : A op := hops op (ops_subset hstep (List.mem_map_of_mem hmem))
      have hP : P op v r := (reachable_callsObey h hs).request hi
      have hv : F v _ := hF _ hmem
      refine ⟨hU.served _ _ _ _ _ hop hP hK hv, fun c hc => ?_⟩
      rcases List.mem_or_eq_of_mem_set hc with hc | rfl
      · exact hU.kept _ _ _ _ _ _ hop hP hK hv (hF c hc)
      · exact hU.heard _ _ _ _ _ hop hP hK hv

/-- What a request that is permitted tells the call that makes it, and leaves the others. -/
structure Lasting (S : Service Operation Store Choice View Reply ε α)
    (P : Operation → View → Request → Prop) (F : View → Store → Prop) : Prop where
  blank : ∀ st, F S.blank st
  heard : ∀ c st op v r, P op v r → F v st →
    F (S.hear v r (S.serve c st r).1) (S.serve c st r).2
  kept : ∀ c st op v w r, P op v r → F v st → F w st → F w (S.serve c st r).2

/-- **What lasts is known**: every call knows of the store what the answers told it. -/
theorem reachable_known (h : ∀ op, (S.program op).Obeys S.look (P op) (Q op) S.blank)
    (hF : Lasting S P F) (hs : (S.system Init).ReachableVia C s) :
    ∀ c ∈ s.calls, F c.view s.store :=
  (reachable_upheld (A := fun _ => True) (K := fun _ => True) h
    { blank := fun st _ => hF.blank st
      served := fun _ _ _ _ _ _ _ _ _ => trivial
      heard := fun c st op v r _ hP _ => hF.heard c st op v r hP
      kept := fun c st op v w r _ hP _ => hF.kept c st op v w r hP }
    (fun _ _ => trivial) hs fun _ _ => trivial).2

/-- A step calls one more operation, or serves a request of one that was called. -/
theorem ops_step (h : S.step s a = some s') : s.ops ⊆ s'.ops ∧ (s'.store = s.store ∨
    ∃ c op v r next, ⟨op, v, .ask r next⟩ ∈ s.calls ∧ s'.store = (S.serve c s.store r).2) := by
  refine ⟨ops_subset h, ?_⟩
  obtain ⟨op, -, rfl⟩ | ⟨i, c, op, v, r, next, -, hi, rfl⟩ := step_cases h
  · exact .inl rfl
  · exact .inr ⟨c, op, v, r, next, List.mem_of_getElem? hi, rfl⟩

/-- **What the requests of the calls leave**: a relation of the operations that were called and
the store, which more operations do not break, is kept when each request keeps it. -/
theorem reachable_recorded {K : List Operation → Store → Prop}
    (h : ∀ op, (S.program op).Obeys S.look (P op) (Q op) S.blank) (hF : Lasting S P F)
    (hinit : ∀ st, Init st → K [] st)
    (hmono : ∀ ops ops' st, ops ⊆ ops' → K ops st → K ops' st)
    (hserve : ∀ c st op v r ops, op ∈ ops → P op v r → F v st → K ops st →
      K ops (S.serve c st r).2)
    (hs : (S.system Init).ReachableVia C s) : K s.ops s.store := by
  induction hs with
  | init h =>
    unfold Config.ops
    rw [h.2]
    exact hinit _ h.1
  | step hs _ hstep ih =>
    obtain ⟨hops, hstore | ⟨c, op, v, r, next, hmem, hstore⟩⟩ := ops_step hstep
    · rw [hstore]
      exact hmono _ _ _ hops ih
    · rw [hstore]
      apply hmono _ _ _ hops
      exact hserve _ _ _ _ _ _ (List.mem_map_of_mem hmem) (reachable_callsObey h hs _ hmem).1
        (reachable_known h hF hs _ hmem) ih

/-- **What no call can reach is spared**: where the operations that were called are all in `A`,
what the requests of such operations keep is kept. -/
theorem reachable_spared {A : Operation → Prop} {K : Store → Prop}
    (h : ∀ op, (S.program op).Obeys S.look (P op) (Q op) S.blank) (hF : Lasting S P F)
    (hinit : ∀ st, Init st → K st)
    (hserve : ∀ c st op v r, A op → P op v r → F v st → K st → K (S.serve c st r).2)
    (hs : (S.system Init).ReachableVia C s) (hops : ∀ op ∈ s.ops, A op) : K s.store := by
  refine reachable_recorded (K := fun ops st => (∀ op ∈ ops, A op) → K st) h hF
    (fun st hst _ => hinit st hst) (fun ops ops' st hsub hK hall => ?_)
    (fun c st op v r ops hop hP hv hK hall => ?_) hs hops
  · exact hK fun op hop => hall op (hsub hop)
  · exact hserve c st op v r (hall op hop) hP hv (hK hall)

end Service
