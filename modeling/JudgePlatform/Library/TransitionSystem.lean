/-
# Transition systems and their runs

A component is given by its initial states and a partial step function
`step : State → Action → Option State`; an action that is not enabled in a
state yields `none`.  An interleaving of several routines is such a system
whose actions name the routine that moves.

* `run` performs a list of actions, `Reachable` closes the initial states under
  `step`, and `ReachableVia C` closes them under the steps that meet a
  condition `C` on the state before the step and the action.
* `ReachableVia.invariant` is the induction over a run, stated once: what holds
  initially and is kept by every step meeting `C` holds in every state reached.
* `Inevitably C Q` says that the runs by steps meeting `C` all come to `Q`.
* `ReachableVia.simulation` transports a run along an abstraction function.
-/
import Mathlib

/-- A labelled transition system with a deterministic partial step function. -/
structure TransitionSystem (State Action : Type*) where
  init : State → Prop
  step : State → Action → Option State

namespace TransitionSystem

variable {State Action : Type*} (T : TransitionSystem State Action)

/-- Perform the actions of a list in order. -/
def run (s : State) : List Action → Option State
  | [] => some s
  | a :: as => (T.step s a).bind fun s' => run s' as

@[simp] theorem run_nil (s : State) : T.run s [] = some s := rfl

@[simp] theorem run_cons (s : State) (a : Action) (as : List Action) :
    T.run s (a :: as) = (T.step s a).bind fun s' => T.run s' as := rfl

/-- The states reached by steps that all meet `C`, a condition on the state
before the step and on the action. -/
inductive ReachableVia (C : State → Action → Prop) : State → Prop
  | init {s : State} (h : T.init s) : ReachableVia C s
  | step {s s' : State} {a : Action} (hs : ReachableVia C s) (hC : C s a)
      (hstep : T.step s a = some s') : ReachableVia C s'

/-- The states reached by any steps. -/
def Reachable : State → Prop := T.ReachableVia fun _ _ => True

variable {T}

/-- **Invariant rule.**  What holds initially and is kept by every step that
meets `C` holds in every state reached by such steps. -/
theorem ReachableVia.invariant {C : State → Action → Prop} {I : State → Prop}
    (hinit : ∀ s, T.init s → I s)
    (hstep : ∀ s a s', I s → C s a → T.step s a = some s' → I s')
    {s : State} (h : T.ReachableVia C s) : I s := by
  induction h with
  | init h => exact hinit _ h
  | step _ hC hs ih => exact hstep _ _ _ ih hC hs

/-- Fewer conditions reach more states. -/
theorem ReachableVia.mono {C D : State → Action → Prop} (hCD : ∀ s a, C s a → D s a)
    {s : State} (h : T.ReachableVia C s) : T.ReachableVia D s := by
  induction h with
  | init h => exact .init h
  | step _ hC hs ih => exact .step ih (hCD _ _ hC) hs

theorem ReachableVia.reachable {C : State → Action → Prop} {s : State}
    (h : T.ReachableVia C s) : T.Reachable s :=
  h.mono fun _ _ _ => trivial

/-- A run from a reachable state ends in a reachable state. -/
theorem Reachable.run {s s' : State} {as : List Action} (h : T.Reachable s)
    (hrun : T.run s as = some s') : T.Reachable s' := by
  induction as generalizing s with
  | nil =>
    rw [run_nil, Option.some.injEq] at hrun
    exact hrun ▸ h
  | cons a as ih =>
    rw [run_cons, Option.bind_eq_some_iff] at hrun
    obtain ⟨s₁, hs₁, hrest⟩ := hrun
    exact ih (.step h trivial hs₁) hrest

/-- `T.RunVia C s s'` : a run from `s` to `s'` by steps that all meet `C`. -/
inductive RunVia (T : TransitionSystem State Action) (C : State → Action → Prop) (s : State) :
    State → Prop
  | refl : RunVia T C s s
  | step {s₁ s₂ : State} {a : Action} (hrun : RunVia T C s s₁) (hC : C s₁ a)
      (hstep : T.step s₁ a = some s₂) : RunVia T C s s₂

theorem ReachableVia.trans {C : State → Action → Prop} {s s' : State} (h : T.ReachableVia C s)
    (hrun : T.RunVia C s s') : T.ReachableVia C s' := by
  induction hrun with
  | refl => exact h
  | step _ hC hstep ih => exact .step ih hC hstep

/-- What a step meeting `C` keeps, from any state reached, a run keeps. -/
theorem RunVia.keeps {C : State → Action → Prop} {K : State → Prop}
    (hkeep : ∀ s a s', T.ReachableVia C s → K s → C s a → T.step s a = some s' → K s')
    {s s' : State} (hs : T.ReachableVia C s) (hrun : T.RunVia C s s') (hK : K s) : K s' := by
  induction hrun with
  | refl => exact hK
  | step hrun hC hstep ih => exact hkeep _ _ _ (hs.trans hrun) ih hC hstep

/-- A run by steps that all meet `C`, with the list of the states that it goes through. -/
inductive Trace (T : TransitionSystem State Action) (C : State → Action → Prop) (s : State) :
    List State → State → Prop
  | refl : Trace T C s [s] s
  | step {l : List State} {s₁ s₂ : State} {a : Action} (htrace : Trace T C s l s₁) (hC : C s₁ a)
      (hstep : T.step s₁ a = some s₂) : Trace T C s (l ++ [s₂]) s₂

theorem Trace.mem_last {C : State → Action → Prop} {s s' : State} {l : List State}
    (h : T.Trace C s l s') : s' ∈ l := by
  cases h with
  | refl => exact List.mem_singleton_self s
  | step => exact List.mem_append_right _ (List.mem_singleton_self s')

theorem Trace.runVia {C : State → Action → Prop} {s s' : State} {l : List State}
    (h : T.Trace C s l s') : T.RunVia C s s' := by
  induction h with
  | refl => exact .refl
  | step _ hC hstep ih => exact .step ih hC hstep

/-- **Invariant rule for traces.**  What is about the last state and the states before it
holds at the end when it holds at the start and each step keeps it. -/
theorem Trace.invariant {C : State → Action → Prop} {I : List State → State → Prop} {s s' : State}
    {l : List State} (h : T.Trace C s l s') (hinit : I [s] s)
    (hstep : ∀ l s₁ a s₂, T.Trace C s l s₁ → I l s₁ → C s₁ a → T.step s₁ a = some s₂ →
      I (l ++ [s₂]) s₂) : I l s' := by
  induction h with
  | refl => exact hinit
  | step htrace hC hs ih => exact hstep _ _ _ _ htrace ih hC hs

/-! ### What every run comes to -/

/-- Every run by steps that meet `C` comes to a state with `Q`, and none gets stuck before. -/
inductive Inevitably (T : TransitionSystem State Action) (C : State → Action → Prop)
    (Q : State → Prop) : State → Prop
  | now {s : State} (h : Q s) : Inevitably T C Q s
  | later {s : State} (hgo : ∃ a s', C s a ∧ T.step s a = some s')
      (hall : ∀ a s', C s a → T.step s a = some s' → Inevitably T C Q s') : Inevitably T C Q s

theorem Inevitably.mono {C : State → Action → Prop} {Q R : State → Prop} {s : State}
    (h : T.Inevitably C Q s) (hQR : ∀ s, Q s → R s) : T.Inevitably C R s := by
  induction h with
  | now h => exact .now (hQR _ h)
  | later hgo _ ih => exact .later hgo ih

/-! ### Runs by evaluation -/

/-- Perform the actions of a list in order, as long as each passes a check. -/
def runWhen (T : TransitionSystem State Action) (check : State → Action → Bool) (s : State) :
    List Action → Option State
  | [] => some s
  | a :: as => if check s a then (T.step s a).bind fun s' => runWhen T check s' as else none

/-- A checked run meets the condition that the check decides. -/
theorem runVia_of_runWhen {C : State → Action → Prop} {check : State → Action → Bool}
    (hcheck : ∀ s a, check s a = true → C s a) {s s' : State} {as : List Action}
    (h : T.runWhen check s as = some s') : T.RunVia C s s' := by
  suffices hgoal : ∀ s₀, T.RunVia C s₀ s → T.RunVia C s₀ s' from hgoal s .refl
  induction as generalizing s with
  | nil =>
    rw [runWhen, Option.some.injEq] at h
    exact fun _ hrun => h ▸ hrun
  | cons a as ih =>
    rw [runWhen] at h
    split at h
    · rename_i hc
      obtain ⟨s₁, hs₁, hrest⟩ := Option.bind_eq_some_iff.mp h
      exact fun s₀ hrun => ih hrest s₀ (.step hrun (hcheck s a hc) hs₁)
    · cases h

/-- A checked run as a trace. -/
theorem trace_of_runWhen {C : State → Action → Prop} {check : State → Action → Bool}
    (hcheck : ∀ s a, check s a = true → C s a) {s s' : State} {as : List Action}
    (h : T.runWhen check s as = some s') : ∃ l, T.Trace C s l s' := by
  suffices hgoal : ∀ s₀ l, T.Trace C s₀ l s → ∃ l', T.Trace C s₀ l' s' from hgoal s [s] .refl
  induction as generalizing s with
  | nil =>
    rw [runWhen, Option.some.injEq] at h
    exact fun _ l htrace => ⟨l, h ▸ htrace⟩
  | cons a as ih =>
    rw [runWhen] at h
    split at h
    · rename_i hc
      obtain ⟨s₁, hs₁, hrest⟩ := Option.bind_eq_some_iff.mp h
      exact fun s₀ l htrace => ih hrest s₀ _ (.step htrace (hcheck s a hc) hs₁)
    · cases h

/-- **Simulation rule.**  When every step meeting `C` is matched, under the
abstraction `f`, by a move of `R` that keeps `J`, then `J ∘ f` is an
invariant.  The concrete invariant `I` may be used to match the step. -/
theorem ReachableVia.simulation {Abstract : Type*} {C : State → Action → Prop}
    {I : State → Prop} {J : Abstract → Prop} {R : Abstract → Abstract → Prop}
    (f : State → Abstract) (hI : ∀ s, T.ReachableVia C s → I s)
    (hinit : ∀ s, T.init s → J (f s))
    (hmatch : ∀ s a s', I s → J (f s) → C s a → T.step s a = some s' → R (f s) (f s'))
    (hkeep : ∀ x y, J x → R x y → J y)
    {s : State} (h : T.ReachableVia C s) : J (f s) := by
  induction h with
  | init h => exact hinit _ h
  | step hs hC hstep ih => exact hkeep _ _ ih (hmatch _ _ _ (hI _ hs) ih hC hstep)

end TransitionSystem
