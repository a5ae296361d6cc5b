/-
# The scaling decision

`decideScale` of `pkg/pool/scaledecision.go`: given one language's bounds and
target and a load signal for the last interval, grow, shrink or hold.  The
waiting times and thresholds are the source's `float64` milliseconds; only
their order is used, so any linear order will do.
-/
import Mathlib

namespace Pool

inductive ScaleAction where
  | up
  | down
  | hold
  deriving DecidableEq, Repr

structure ScaleDecision where
  newTarget : ℕ
  action : ScaleAction
  deriving DecidableEq, Repr

/-- The defensive clamp of an out-of-range target. -/
def clampTarget (min max target : ℕ) : ℕ :=
  let target := if target < min then min else target
  if target > max then max else target

variable {α : Type*} [LT α] [DecidableLT α]

def decideScale (min max target : ℕ) (avgWaitMs : α) (hadTraffic : Bool) (timeouts : ℤ)
    (upThresholdMs downThresholdMs : α) (upCooldownElapsed downCooldownElapsed : Bool)
    (globalHeadroomAvailable : Bool) : ScaleDecision :=
  let target := clampTarget min max target
  if !hadTraffic then ⟨target, .hold⟩
  else if timeouts > 0 ∨ upThresholdMs < avgWaitMs then
    if target < max ∧ upCooldownElapsed ∧ globalHeadroomAvailable then ⟨target + 1, .up⟩
    -- a language under load holds rather than falling through to the scale-down check
    else ⟨target, .hold⟩
  else if avgWaitMs < downThresholdMs then
    if target > min ∧ downCooldownElapsed then ⟨target - 1, .down⟩
    else ⟨target, .hold⟩
  else ⟨target, .hold⟩

theorem clampTarget_eq_self {min max target : ℕ} (hmin : min ≤ target) (hmax : target ≤ max) :
    clampTarget min max target = target := by
  have h₁ : ¬ target < min := by omega
  have h₂ : ¬ target > max := by omega
  simp only [clampTarget, if_neg h₁, if_neg h₂]

/-- The decision in full, for a target inside its bounds: it holds, it grows by one after
the cooldown and when there is headroom, or it shrinks by one after the other cooldown and
only when nothing speaks for growing. -/
theorem decideScale_decided {min max target : ℕ} (hmin : min ≤ target) (hmax : target ≤ max)
    (avgWaitMs : α) (hadTraffic : Bool) (timeouts : ℤ) (upThresholdMs downThresholdMs : α)
    (up down headroom : Bool) :
    let d := decideScale min max target avgWaitMs hadTraffic timeouts upThresholdMs
      downThresholdMs up down headroom
    d = ⟨target, .hold⟩ ∨
      (d = ⟨target + 1, .up⟩ ∧ target < max ∧ up = true ∧ headroom = true) ∨
      (d = ⟨target - 1, .down⟩ ∧ min < target ∧ down = true ∧
        ¬(0 < timeouts ∨ upThresholdMs < avgWaitMs)) := by
  intro d
  simp only [d, decideScale, clampTarget_eq_self hmin hmax]
  split_ifs with h1 h2 h3 h4 h5
  · exact .inl rfl
  · exact .inr (.inl ⟨rfl, h3⟩)
  · exact .inl rfl
  · exact .inr (.inr ⟨rfl, h5.1, h5.2, h2⟩)
  · exact .inl rfl
  · exact .inl rfl

/-- **What a decision can be**, for a target inside its bounds: it stays, it
falls by one towards `min`, or it grows by one towards `max`, and it grows only
when there is headroom. -/
theorem decideScale_cases {min max target : ℕ} (hmin : min ≤ target) (hmax : target ≤ max)
    (avgWaitMs : α) (hadTraffic : Bool) (timeouts : ℤ) (upThresholdMs downThresholdMs : α)
    (up down headroom : Bool) :
    let d := decideScale min max target avgWaitMs hadTraffic timeouts upThresholdMs
      downThresholdMs up down headroom
    d.newTarget = target ∨ (min < target ∧ d.newTarget = target - 1) ∨
      (target < max ∧ headroom = true ∧ d.newTarget = target + 1) := by
  intro d
  rcases decideScale_decided hmin hmax avgWaitMs hadTraffic timeouts upThresholdMs
    downThresholdMs up down headroom with h | ⟨h, hlt, -, hroom⟩ | ⟨h, hlt, -, -⟩
  · exact .inl (congrArg ScaleDecision.newTarget h)
  · exact .inr (.inr ⟨hlt, hroom, congrArg ScaleDecision.newTarget h⟩)
  · exact .inr (.inl ⟨hlt, congrArg ScaleDecision.newTarget h⟩)

end Pool
