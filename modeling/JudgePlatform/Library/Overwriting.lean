/-
# Fields that events overwrite

A field of a record to which events come one after another: an event either overwrites the
field with a value of its own or leaves it.  After a list of events the field has the value
of the last one that overwrote it.
-/
import Mathlib

namespace Overwriting

variable {α β : Type*} (f : α → Option β)

/-- The value of the last event that overwrites the field. -/
def lastWrite (l : List α) : Option β := (l.filterMap f).getLast?

theorem lastWrite_concat (l : List α) (a : α) :
    lastWrite f (l ++ [a]) = (f a).or (lastWrite f l) := by
  unfold lastWrite
  rw [List.filterMap_append]
  cases h : f a with
  | none => simp [h]
  | some b => simp [h]

theorem lastWrite_congr {f' : α → Option β} {l : List α} (h : ∀ a ∈ l, f a = f' a) :
    lastWrite f l = lastWrite f' l := by
  unfold lastWrite
  rw [List.filterMap_congr h]

theorem lastWrite_map {γ : Type*} (g : β → γ) (l : List α) :
    lastWrite (fun a => (f a).map g) l = (lastWrite f l).map g := by
  unfold lastWrite
  rw [← List.getLast?_map, List.map_filterMap]

/-- Nothing overwrites the field just when no event does. -/
theorem lastWrite_eq_none (l : List α) : lastWrite f l = none ↔ ∀ a ∈ l, f a = none := by
  unfold lastWrite
  rw [List.getLast?_eq_none_iff, List.filterMap_eq_nil_iff]

/-- A step that overwrites one field of a state leaves there, after a list of events, what was
last written. -/
theorem foldl_eq_lastWrite {σ : Type*} {step : σ → α → σ} {get : σ → β}
    (hstep : ∀ s a, get (step s a) = (f a).getD (get s)) (s : σ) (l : List α) :
    get (l.foldl step s) = (lastWrite f l).getD (get s) := by
  induction l using List.reverseRecOn with
  | nil => rfl
  | append_singleton l a ih =>
    rw [List.foldl_append, List.foldl_cons, List.foldl_nil, hstep, ih, lastWrite_concat]
    cases f a with
    | none => rfl
    | some b => rfl

/-- Two lists of the same events leave the same value just when the last writes agree. -/
theorem getD_lastWrite_eq_iff {l l' : List α} (h : ∀ a, a ∈ l ↔ a ∈ l') (b : β) :
    (lastWrite f l).getD b = (lastWrite f l').getD b ↔ lastWrite f l = lastWrite f l' := by
  have hnone : lastWrite f l = none ↔ lastWrite f l' = none := by
    rw [lastWrite_eq_none, lastWrite_eq_none]
    simp only [h]
  constructor
  · intro heq
    cases hl : lastWrite f l with
    | none => exact (hnone.mp hl).symm
    | some x =>
      cases hl' : lastWrite f l' with
      | none => cases hl.symm.trans (hnone.mpr hl')
      | some y =>
        rw [hl, hl', Option.getD_some, Option.getD_some] at heq
        rw [heq]
  · intro heq
    rw [heq]

end Overwriting
