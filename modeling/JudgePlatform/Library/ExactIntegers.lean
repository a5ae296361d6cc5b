/-
# Integers among the doubles

An integer of at most 53 bits is a double, and as long as every result is one, sums,
products and comparisons of doubles are those of the integers.

* `add_ofInt`, `mul_ofInt` : the exact operations.
* `le_ofInt`, `eq_ofInt` : the exact comparisons.
-/
import JudgePlatform.Library.Binary64

namespace Binary64

/-! ## Conversion -/

theorem representable_intCast {n : ℤ} (h : |n| < 2 ^ 53) : Representable (n : ℚ) :=
  ⟨n, 0, h, by norm_num, by norm_num, by simp⟩

theorem ofInt_of_abs_lt {n : ℤ} (h : |n| < 2 ^ 53) :
    ofInt n = finite n (representable_intCast h) :=
  ofRat_of_representable (representable_intCast h)

theorem ofInt_inj {m n : ℤ} (hm : |m| < 2 ^ 53) (hn : |n| < 2 ^ 53) :
    ofInt m = ofInt n ↔ m = n := by
  rw [ofInt_of_abs_lt hm, ofInt_of_abs_lt hn]
  simp

theorem ofInt_ne_nan {n : ℤ} (h : |n| < 2 ^ 53) : ofInt n ≠ nan := by
  rw [ofInt_of_abs_lt h]
  exact Binary64.noConfusion

theorem ofInt_zero : ofInt 0 = zero := by
  rw [ofInt, Int.cast_zero, ofRat_of_representable representable_zero]
  rfl

/-! ## Arithmetic -/

/-- A sum is rounded once, whatever the signs of its zeros. -/
theorem add_finite {p q : ℚ} (hp : Representable p) (hq : Representable q) :
    (finite p hp).add (finite q hq) = ofRat (p + q) := by
  by_cases h : q = 0
  · have hneg : (finite q hq).neg = negZero := if_pos h
    rw [add, hneg]
    show ofRat p = ofRat (p + q)
    rw [h, add_zero]
  · have hneg : (finite q hq).neg = finite (-q) hq.neg := if_neg h
    rw [add, hneg]
    show ofRat (p - -q) = ofRat (p + q)
    rw [sub_neg_eq_add]

theorem add_ofInt {m n : ℤ} (hm : |m| < 2 ^ 53) (hn : |n| < 2 ^ 53) :
    (ofInt m).add (ofInt n) = ofInt (m + n) := by
  rw [ofInt_of_abs_lt hm, ofInt_of_abs_lt hn, add_finite]
  unfold ofInt
  rw [Int.cast_add]

theorem isNegative_ofInt {n : ℤ} (h : |n| < 2 ^ 53) : (ofInt n).isNegative = decide (n < 0) := by
  rw [ofInt_of_abs_lt h]
  show decide ((n : ℚ) < 0) = decide (n < 0)
  rw [decide_eq_decide]
  exact Int.cast_lt_zero

/-- A product with a positive integer is exact as long as it is an integer of 53 bits. -/
theorem mul_ofInt {m n : ℤ} (hm : |m| < 2 ^ 53) (hn : |n| < 2 ^ 53) (hpos : 0 < n)
    (h : |m * n| < 2 ^ 53) : (ofInt m).mul (ofInt n) = ofInt (m * n) := by
  have hrep : Representable ((m : ℚ) * n) := by
    rw [← Int.cast_mul]
    exact representable_intCast h
  have hnegative : ((ofInt m).isNegative != (ofInt n).isNegative) = decide (m < 0) := by
    rw [isNegative_ofInt hm, isNegative_ofInt hn, decide_eq_false (by omega : ¬n < 0),
      Bool.bne_false]
  have hmul : (ofInt m).mul (ofInt n) = ofSigned (decide (m < 0)) (m * n) := by
    rw [← hnegative, ofInt_of_abs_lt hm, ofInt_of_abs_lt hn]
    rfl
  rw [hmul, ofSigned, nearest_of_representable hrep]
  split_ifs with hzero hm'
  · -- a negative number has no zero for its product
    have hne : (m : ℚ) * n ≠ 0 :=
      mul_ne_zero (Int.cast_ne_zero.mpr (by simp at hm'; omega)) (Int.cast_ne_zero.mpr hpos.ne')
    exact absurd hzero hne
  · rw [ofInt, Int.cast_mul, hzero, ofRat_of_representable representable_zero]
  · rw [ofInt, Int.cast_mul]

/-! ## Comparisons -/

theorem le_ofInt {m n : ℤ} (hm : |m| < 2 ^ 53) (hn : |n| < 2 ^ 53) :
    (ofInt m).le (ofInt n) = decide (m ≤ n) := by
  rw [ofInt_of_abs_lt hm, ofInt_of_abs_lt hn]
  show decide ((m : ℚ) ≤ n) = decide (m ≤ n)
  rw [decide_eq_decide]
  exact Int.cast_le

theorem lt_ofInt {m n : ℤ} (hm : |m| < 2 ^ 53) (hn : |n| < 2 ^ 53) :
    (ofInt m).lt (ofInt n) = decide (m < n) := by
  rw [lt, le_ofInt hm hn, le_ofInt hn hm, Bool.eq_iff_iff]
  simp only [Bool.and_eq_true, Bool.not_eq_true', decide_eq_true_eq, decide_eq_false_iff_not]
  omega

theorem eq_ofInt {m n : ℤ} (hm : |m| < 2 ^ 53) (hn : |n| < 2 ^ 53) :
    (ofInt m).eq (ofInt n) = decide (m = n) := by
  rw [eq, le_ofInt hm hn, le_ofInt hn hm, Bool.eq_iff_iff]
  simp only [Bool.and_eq_true, decide_eq_true_eq]
  omega

/-- `<` and `<=` differ at equal numbers only. -/
theorem lt_eq_le_iff (x y : Binary64) : x.lt y = x.le y ↔ y.eq x = false := by
  unfold lt eq
  cases x.le y <;> cases y.le x <;> simp

end Binary64
