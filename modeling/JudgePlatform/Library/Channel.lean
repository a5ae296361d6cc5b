/-
# Buffered channels

A bounded first-in first-out queue with the two non-blocking operations a
`select` with a default branch performs on it.  The bound is a field of the
channel, so an overfull channel cannot be built.
-/
import Mathlib

/-- A channel of `capacity` slots; `buffer` lists what waits in it, oldest first. -/
structure Channel (α : Type*) where
  capacity : ℕ
  buffer : List α
  fits : buffer.length ≤ capacity

namespace Channel

variable {α : Type*}

/-- `make(chan α, n)`. -/
def make (n : ℕ) : Channel α := ⟨n, [], Nat.zero_le n⟩

/-- A send that does not wait: `none` when the channel is full. -/
def trySend (ch : Channel α) (x : α) : Option (Channel α) :=
  if h : ch.buffer.length < ch.capacity then
    some ⟨ch.capacity, ch.buffer ++ [x], by rw [List.length_append]; exact h⟩
  else none

/-- A receive that does not wait: `none` when the channel is empty. -/
def tryReceive (ch : Channel α) : Option (α × Channel α) :=
  match ch with
  | ⟨_, [], _⟩ => none
  | ⟨n, x :: rest, h⟩ => some (x, ⟨n, rest, (Nat.le_succ _).trans h⟩)

@[simp] theorem buffer_make (n : ℕ) : (make n : Channel α).buffer = [] := rfl

@[simp] theorem capacity_make (n : ℕ) : (make n : Channel α).capacity = n := rfl

/-- What a send that went through did. -/
theorem trySend_eq_some {ch ch' : Channel α} {x : α} (h : ch.trySend x = some ch') :
    ch'.capacity = ch.capacity ∧ ch'.buffer = ch.buffer ++ [x] := by
  unfold trySend at h
  split at h
  · obtain rfl := Option.some.inj h
    exact ⟨rfl, rfl⟩
  · cases h

/-- A send is refused exactly when the channel is full. -/
theorem trySend_eq_none_iff {ch : Channel α} {x : α} :
    ch.trySend x = none ↔ ch.buffer.length = ch.capacity := by
  have := ch.fits
  unfold trySend
  split
  · simp only [reduceCtorEq, false_iff]
    omega
  · simp only [true_iff]
    omega

/-- What a receive that went through did. -/
theorem tryReceive_eq_some {ch ch' : Channel α} {x : α} (h : ch.tryReceive = some (x, ch')) :
    ch'.capacity = ch.capacity ∧ ch.buffer = x :: ch'.buffer := by
  obtain ⟨n, buffer, hfits⟩ := ch
  cases buffer with
  | nil => cases h
  | cons y rest =>
    obtain ⟨rfl, rfl⟩ := Prod.mk.inj (Option.some.inj h)
    exact ⟨rfl, rfl⟩

end Channel
