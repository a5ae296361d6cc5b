/-
# Replacing a word in a text

`strings.ReplaceAll` and `strings.Replace(s, old, new, 1)` for a word that is not empty, on
lists over any alphabet.

* `replaceAll_eq_self`, `length_replaceAll_lt` : replacing changes a text just when the
  word is in it, where what takes its place is shorter.
* `replaceFirst_append` : the first occurrence, behind a text that has none.
-/
import Mathlib

namespace Replacing

variable {α : Type*} [DecidableEq α]

/-! ## All occurrences -/

/-- What is left after `skip` letters, with each occurrence of `old` from there on replaced;
the letters of an occurrence are skipped. -/
def replaceFrom (old new : List α) : ℕ → List α → List α
  | _, [] => []
  | skip + 1, _ :: s => replaceFrom old new skip s
  | 0, c :: s =>
    if old <+: c :: s then new ++ replaceFrom old new (old.length - 1) s
    else c :: replaceFrom old new 0 s

/-- `strings.ReplaceAll`. -/
def replaceAll (old new s : List α) : List α := replaceFrom old new 0 s

variable {old new s : List α}

/-- **Without an occurrence nothing is replaced.** -/
theorem replaceAll_eq_self (h : ¬old <:+: s) : replaceAll old new s = s := by
  unfold replaceAll
  induction s with
  | nil => rfl
  | cons c s ih =>
    have hprefix : ¬old <+: c :: s := fun hp => h hp.isInfix
    have hrest : ¬old <:+: s := fun hi => h (hi.trans (List.suffix_cons c s).isInfix)
    rw [replaceFrom, if_neg hprefix, ih hrest]

/-- A text does not become longer. -/
theorem length_replaceFrom_le (hlt : new.length < old.length) (skip : ℕ) (s : List α)
    (hskip : skip ≤ s.length) : (replaceFrom old new skip s).length ≤ s.length - skip := by
  induction s generalizing skip with
  | nil => simp [replaceFrom]
  | cons c s ih =>
    cases skip with
    | succ skip =>
      rw [List.length_cons] at hskip
      have hrest := ih skip (by omega)
      rw [replaceFrom, List.length_cons]
      omega
    | zero =>
      rw [replaceFrom]
      split_ifs with hprefix
      -- the letters of the occurrence are skipped, and fewer take their place
      · have hlength := hprefix.length_le
        rw [List.length_cons] at hlength
        have hrest := ih (old.length - 1) (by omega)
        rw [List.length_append, List.length_cons]
        omega
      · have hrest := ih 0 (by omega)
        rw [List.length_cons, List.length_cons]
        omega

theorem length_replaceAll_le (hlt : new.length < old.length) (s : List α) :
    (replaceAll old new s).length ≤ s.length :=
  length_replaceFrom_le hlt 0 s (Nat.zero_le _)

/-- **With an occurrence the text becomes shorter.** -/
theorem length_replaceAll_lt (hlt : new.length < old.length) (h : old <:+: s) :
    (replaceAll old new s).length < s.length := by
  unfold replaceAll
  induction s with
  | nil =>
    have hlength := h.length_le
    rw [List.length_nil] at hlength
    omega
  | cons c s ih =>
    rw [replaceFrom]
    split_ifs with hprefix
    · have hlength := hprefix.length_le
      rw [List.length_cons] at hlength
      have hrest := length_replaceFrom_le hlt (old.length - 1) s (by omega)
      rw [List.length_append, List.length_cons]
      omega
    · have hrest := ih ((List.infix_cons_iff.mp h).resolve_left hprefix)
      rw [List.length_cons, List.length_cons]
      omega

/-! ## The first occurrence -/

/-- `strings.Replace(s, old, new, 1)`. -/
def replaceFirst (old new : List α) : List α → List α
  | [] => []
  | c :: s => if old <+: c :: s then new ++ (c :: s).drop old.length else c :: replaceFirst old new s

/-- A text that has no occurrence, and that none begins in, stays. -/
theorem replaceFirst_append {t : List α} (h : ¬old <:+: s)
    (hsplit : ∀ k, 0 < k → k < old.length → ¬old.take k <:+ s) :
    replaceFirst old new (s ++ t) = s ++ replaceFirst old new t := by
  induction s with
  | nil => rfl
  | cons c s ih =>
    have hrest : ¬old <:+: s := fun hi => h (hi.trans (List.suffix_cons c s).isInfix)
    have hprefix : ¬old <+: c :: (s ++ t) := by
      intro hp
      rw [← List.cons_append] at hp
      -- an occurrence would lie in the text, or begin there and end behind it
      by_cases hlength : old.length ≤ (c :: s).length
      · exact h (List.prefix_of_prefix_length_le hp (List.prefix_append _ _) hlength).isInfix
      · have htake : c :: s = old.take (c :: s).length := by
          have hle : (c :: s).length ≤ old.length := by omega
          have hc := List.prefix_of_prefix_length_le (List.prefix_append (c :: s) t) hp hle
          exact List.prefix_iff_eq_take.mp hc
        refine hsplit (c :: s).length (by simp) (by omega) ?_
        rw [← htake]
    rw [List.cons_append, replaceFirst, if_neg hprefix, ih hrest fun k hk hlt hsuffix => ?_,
      List.cons_append]
    exact hsplit k hk hlt (hsuffix.trans (List.suffix_cons c s))

theorem replaceFirst_self (hne : old ≠ []) (t : List α) :
    replaceFirst old new (old ++ t) = new ++ t := by
  obtain ⟨c, s, rfl⟩ := List.exists_cons_of_ne_nil hne
  have hprefix : c :: s <+: c :: (s ++ t) := List.prefix_append (c :: s) t
  rw [List.cons_append, replaceFirst, if_pos hprefix, ← List.cons_append, List.drop_left]

/-- Where an occurrence is replaced does not depend on what takes its place. -/
theorem replaceFirst_cases (old : List α) (s : List α) :
    (∀ new, replaceFirst old new s = s) ∨
      ∃ before after, s = before ++ old ++ after ∧
        ∀ new, replaceFirst old new s = before ++ new ++ after := by
  induction s with
  | nil => exact .inl fun new => rfl
  | cons c s ih =>
    by_cases hprefix : old <+: c :: s
    · right
      obtain ⟨after, hafter⟩ := hprefix
      refine ⟨[], after, by rw [List.nil_append, hafter], fun new => ?_⟩
      rw [replaceFirst, if_pos ⟨after, hafter⟩, ← hafter, List.drop_left]
      rfl
    · simp only [replaceFirst, if_neg hprefix]
      rcases ih with ih | ⟨before, after, hs, ih⟩
      · exact .inl fun new => by rw [ih]
      · exact .inr ⟨c :: before, after, by rw [hs]; rfl, fun new => by rw [ih]; rfl⟩

end Replacing
