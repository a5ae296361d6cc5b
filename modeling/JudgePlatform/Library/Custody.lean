/-
# Custody of unique tokens

The abstract model of any component that hands out unique resources: tokens
(containers, messages, file descriptors) are held at places, a token that was
never issued before may be issued at some place, and a token may be carried
from one place to another.  A token is never copied.

The ledger counts the copies of each token at each place, so that a faulty
component which *does* copy a token can be described as well; `Exclusive` says
that no such copy exists, and `Moves.wellKept` that issuing new tokens and
carrying tokens around never makes one.
-/
import Mathlib

/-- The copies of each token at each place, and the tokens issued so far. -/
@[ext] structure Ledger (Place Token : Type*) where
  held : Place → Token → ℕ
  issued : Set Token

namespace Ledger

variable {Place Token : Type*} [DecidableEq Place] [DecidableEq Token]

/-- One more copy of `t` at `p`. -/
def add (h : Place → Token → ℕ) (p : Place) (t : Token) : Place → Token → ℕ :=
  fun q u => h q u + if q = p ∧ u = t then 1 else 0

/-- One copy of `t` less at `p`. -/
def remove (h : Place → Token → ℕ) (p : Place) (t : Token) : Place → Token → ℕ :=
  fun q u => h q u - if q = p ∧ u = t then 1 else 0

/-- The moves of a component that keeps its tokens unique. -/
inductive Moves : Ledger Place Token → Ledger Place Token → Prop
  | stay (l : Ledger Place Token) : Moves l l
  | issue (l : Ledger Place Token) (p : Place) (t : Token) (new : t ∉ l.issued) :
      Moves l ⟨add l.held p t, insert t l.issued⟩
  | carry (l : Ledger Place Token) (p q : Place) (t : Token) (held : 0 < l.held p t) :
      Moves l ⟨add (remove l.held p t) q t, l.issued⟩

/-- A component that changes only two places, one copy of `t` moving from `p` to
`q`, has carried `t`. -/
theorem Moves.of_carried {l m : Ledger Place Token} {p q : Place} {t : Token} (hne : q ≠ p)
    (hp : ∀ u, l.held p u = m.held p u + if u = t then 1 else 0)
    (hq : ∀ u, m.held q u = l.held q u + if u = t then 1 else 0)
    (hrest : ∀ r, r ≠ p → r ≠ q → ∀ u, m.held r u = l.held r u)
    (hissued : m.issued = l.issued) : Moves l m := by
  have hheld : 0 < l.held p t := by
    rw [hp, if_pos rfl]
    exact Nat.succ_pos _
  have hm : m = ⟨add (remove l.held p t) q t, l.issued⟩ := by
    refine Ledger.ext (funext fun r => funext fun u => ?_) hissued
    show m.held r u = l.held r u - (if r = p ∧ u = t then 1 else 0)
      + if r = q ∧ u = t then 1 else 0
    by_cases hrp : r = p
    · subst hrp
      simp only [hne.symm, false_and, if_false, true_and, Nat.add_zero]
      rw [hp, Nat.add_sub_cancel]
    · by_cases hrq : r = q
      · subst hrq
        simp only [hne, false_and, if_false, true_and, Nat.sub_zero]
        rw [hq]
      · simp only [hrp, hrq, false_and, if_false, Nat.sub_zero, Nat.add_zero]
        exact hrest r hrp hrq u
  rw [hm]
  exact .carry l p q t hheld

/-- A component that changes only one place, where `t` appears, has issued `t`. -/
theorem Moves.of_issued {l m : Ledger Place Token} {p : Place} {t : Token} (new : t ∉ l.issued)
    (hp : ∀ u, m.held p u = l.held p u + if u = t then 1 else 0)
    (hrest : ∀ r, r ≠ p → ∀ u, m.held r u = l.held r u)
    (hissued : m.issued = insert t l.issued) : Moves l m := by
  have hm : m = ⟨add l.held p t, insert t l.issued⟩ := by
    refine Ledger.ext (funext fun r => funext fun u => ?_) hissued
    show m.held r u = l.held r u + if r = p ∧ u = t then 1 else 0
    by_cases hrp : r = p
    · subst hrp
      simp only [true_and]
      rw [hp]
    · simp only [hrp, false_and, if_false, Nat.add_zero]
      exact hrest r hrp u
  rw [hm]
  exact .issue l p t new

/-- A component that changes no place has made no move. -/
theorem Moves.of_same {l m : Ledger Place Token} (hheld : ∀ p u, m.held p u = l.held p u)
    (hissued : m.issued = l.issued) : Moves l m := by
  have hm : m = l := Ledger.ext (funext fun p => funext fun u => hheld p u) hissued
  rw [hm]
  exact .stay l

omit [DecidableEq Place] [DecidableEq Token]

/-- Every token is at most at one place, and there at most once. -/
def Exclusive (h : Place → Token → ℕ) : Prop :=
  ∀ t p q, 0 < h p t → 0 < h q t → p = q ∧ h p t = 1

/-- No token is held twice, and only issued tokens are held. -/
structure WellKept (l : Ledger Place Token) : Prop where
  exclusive : Exclusive l.held
  issued : ∀ p t, 0 < l.held p t → t ∈ l.issued

/-- An exclusive token found at `p` is nowhere else. -/
theorem Exclusive.eq_zero {h : Place → Token → ℕ} (hex : Exclusive h) {p q : Place}
    {t : Token} (hp : 0 < h p t) (hne : q ≠ p) : h q t = 0 := by
  by_contra hq
  exact hne (hex t q p (Nat.pos_of_ne_zero hq) hp).1

theorem Exclusive.le_one {h : Place → Token → ℕ} (hex : Exclusive h) (p : Place) (t : Token) :
    h p t ≤ 1 := by
  rcases Nat.eq_zero_or_pos (h p t) with h0 | hp
  · rw [h0]
    exact Nat.zero_le 1
  · exact (hex t p p hp hp).2.le

variable [DecidableEq Place] [DecidableEq Token]

/-- A token held nowhere may appear at one place. -/
theorem Exclusive.add {h : Place → Token → ℕ} (hex : Exclusive h) {p : Place} {t : Token}
    (absent : ∀ q, h q t = 0) : Exclusive (add h p t) := by
  intro u q r hq hr
  unfold Ledger.add at *
  by_cases hu : u = t
  · subst hu
    simp only [absent, and_true, Nat.zero_add] at *
    split_ifs at * with h1 h2
    · exact ⟨h1.trans h2.symm, rfl⟩
    all_goals omega
  · simp only [hu, and_false, if_false, Nat.add_zero] at *
    exact hex u q r hq hr

/-- A token may disappear from a place, and is then held nowhere. -/
theorem Exclusive.remove {h : Place → Token → ℕ} (hex : Exclusive h) {p : Place} {t : Token}
    (held : 0 < h p t) :
    Exclusive (remove h p t) ∧ ∀ q, remove h p t q t = 0 := by
  have hgone : ∀ q, Ledger.remove h p t q t = 0 := by
    intro q
    unfold Ledger.remove
    by_cases hq : q = p
    · subst hq
      rw [if_pos ⟨rfl, rfl⟩, (hex t q q held held).2]
    · rw [if_neg fun hc => hq hc.1, hex.eq_zero held hq]
  refine ⟨?_, hgone⟩
  intro u a b ha hb
  by_cases hu : u = t
  · subst hu
    rw [hgone] at ha
    exact absurd ha (Nat.lt_irrefl 0)
  · simp only [Ledger.remove, hu, and_false, if_false, Nat.sub_zero] at *
    exact hex u a b ha hb

/-- **Uniqueness is kept**: no move of the abstract component copies a token. -/
theorem Moves.wellKept {l m : Ledger Place Token} (hm : Moves l m) (hl : l.WellKept) :
    m.WellKept := by
  cases hm with
  | stay => exact hl
  | issue p t new =>
    have habsent : ∀ q, l.held q t = 0 := fun q =>
      Nat.eq_zero_of_not_pos fun hq => new (hl.issued q t hq)
    refine ⟨hl.exclusive.add habsent, fun q u hq => ?_⟩
    by_cases hu : u = t
    · exact Or.inl hu
    · right
      apply hl.issued q u
      simpa only [add, hu, and_false, if_false, Nat.add_zero] using hq
  | carry p q t held =>
    obtain ⟨hrest, hgone⟩ := hl.exclusive.remove held
    refine ⟨hrest.add hgone, fun r u hr => ?_⟩
    by_cases hu : u = t
    · rw [hu]
      exact hl.issued p t held
    · apply hl.issued r u
      simpa only [add, remove, hu, and_false, if_false, Nat.add_zero, Nat.sub_zero] using hr

end Ledger
