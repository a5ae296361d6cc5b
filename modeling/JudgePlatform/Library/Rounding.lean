/-
# Rounding errors of doubles

Every operation on doubles rounds once, and a rounding is off by half of the last place.
`drift n m` bounds what `n` roundings in turn can add up to, near numbers of at most the
size `m`.

* `abs_nearest_sub_le` : the error of one rounding.
* `Near.round` : one more rounding.
* `Near.toFixed` : rounding to decimal places.
* `foldl_add_near` : a sum of doubles is near the exact sum, unless it overflows.
-/
import JudgePlatform.Library.ExactIntegers

namespace Binary64

/-! ## One rounding -/

theorem abs_roundEven_sub_le (q : ℚ) : |roundEven q - q| ≤ 1 / 2 := by
  have hfloor := Int.floor_le q
  have hlt := Int.lt_floor_add_one q
  unfold roundEven
  split_ifs with h h' h''
  · rw [abs_le]
    constructor <;> linarith
  · rw [abs_le]
    push_cast
    constructor <;> linarith
  · rw [abs_le]
    constructor <;> linarith
  · rw [abs_le]
    push_cast
    constructor <;> linarith

/-- **The error of one rounding**, for large numbers and for small ones. -/
theorem abs_nearest_sub_le (q : ℚ) : |nearest q - q| ≤ 2 ^ (-53 : ℤ) * |q| + 2 ^ (-1075 : ℤ) := by
  rcases eq_or_ne q 0 with rfl | hq
  · rw [nearest_zero, sub_zero, abs_zero]
    positivity
  · have hpos : (0 : ℚ) < 2 ^ lastPlace q := by positivity
    have herror : |nearest q - q| ≤ 1 / 2 * 2 ^ lastPlace q := by
      have heq : nearest q - q = (roundEven (q / 2 ^ lastPlace q) - q / 2 ^ lastPlace q) *
          2 ^ lastPlace q := by
        rw [nearest, sub_mul, div_mul_cancel₀ q hpos.ne']
      rw [heq, abs_mul, abs_of_pos hpos]
      exact mul_le_mul_of_nonneg_right (abs_roundEven_sub_le _) hpos.le
    have hsize : (2 : ℚ) ^ Int.log 2 |q| ≤ |q| := by
      exact_mod_cast Int.zpow_log_le_self (b := 2) (by norm_num) (abs_pos.mpr hq)
    refine herror.trans ?_
    unfold lastPlace
    rcases max_choice (Int.log 2 |q| - 52) (-1074) with h | h
    · rw [h, zpow_sub₀ two_ne_zero]
      have hsmall : (0 : ℚ) < 2 ^ (-1075 : ℤ) := by positivity
      have hhalf : (2 : ℚ) ^ (-53 : ℤ) = 1 / 2 / 2 ^ (52 : ℤ) := by norm_num
      rw [hhalf]
      have hstep : 1 / 2 * ((2 : ℚ) ^ Int.log 2 |q| / 2 ^ (52 : ℤ)) ≤
          1 / 2 / 2 ^ (52 : ℤ) * |q| :=
        calc 1 / 2 * ((2 : ℚ) ^ Int.log 2 |q| / 2 ^ (52 : ℤ))
            = 1 / 2 / 2 ^ (52 : ℤ) * 2 ^ Int.log 2 |q| := by ring
          _ ≤ 1 / 2 / 2 ^ (52 : ℤ) * |q| := mul_le_mul_of_nonneg_left hsize (by positivity)
      linarith
    · rw [h]
      have hhalf : 1 / 2 * (2 : ℚ) ^ (-1074 : ℤ) = 2 ^ (-1075 : ℤ) := by
        rw [show (-1075 : ℤ) = -1 + -1074 from rfl, zpow_add₀ two_ne_zero]
        norm_num
      rw [hhalf]
      have hlarge : (0 : ℚ) ≤ 2 ^ (-53 : ℤ) * |q| := by positivity
      linarith

theorem nearest_nonneg {q : ℚ} (h : 0 ≤ q) : 0 ≤ nearest q := by
  have hround : 0 ≤ roundEven (q / 2 ^ lastPlace q) := by
    apply le_roundEven
    rw [Int.cast_zero]
    positivity
  unfold nearest
  have hcast : (0 : ℚ) ≤ roundEven (q / 2 ^ lastPlace q) := by exact_mod_cast hround
  positivity

/-! ## Roundings in turn -/

/-- What `n` roundings can add up to, near numbers of at most the size `m`. -/
def drift (n : ℕ) (m : ℚ) : ℚ := ((1 + 2 ^ (-52 : ℤ)) ^ n - 1) * m

theorem drift_zero (m : ℚ) : drift 0 m = 0 := by
  unfold drift
  rw [pow_zero, sub_self, zero_mul]

theorem drift_succ (n : ℕ) (m : ℚ) :
    drift (n + 1) m = drift n m + 2 ^ (-52 : ℤ) * (m + drift n m) := by
  unfold drift
  ring

section Near

variable {n : ℕ} {c m x y : ℚ}

theorem drift_nonneg (hm : 0 ≤ m) : 0 ≤ drift n m := by
  induction n with
  | zero => exact (drift_zero m).ge
  | succ n ih =>
    rw [drift_succ]
    positivity

theorem drift_mul (n : ℕ) (k m : ℚ) : drift n (k * m) = k * drift n m := by
  unfold drift
  ring

/-- The number is near another one of at most the size `m`, up to `c` and `n` roundings. -/
structure Near (c : ℚ) (n : ℕ) (m x y : ℚ) : Prop where
  size : |y| ≤ m
  error : |x - y| ≤ c + drift n m

theorem Near.refl (h : |x| ≤ m) : Near 0 0 m x x := by
  refine ⟨h, ?_⟩
  rw [sub_self, abs_zero, drift_zero, add_zero]

/-- **One more rounding.** -/
theorem Near.round (h : Near c n m x y) (hc : c ≤ 1 / 2) (hm : 1 ≤ m) :
    Near c (n + 1) m (nearest x) y := by
  refine ⟨h.size, ?_⟩
  have hround := abs_nearest_sub_le x
  have hsplit : |nearest x - y| ≤ |nearest x - x| + |x - y| := abs_sub_le _ _ _
  have hx : |x| ≤ m + (c + drift n m) := by
    have habs : |x| ≤ |x - y| + |y| := by
      simpa using abs_add_le (x - y) y
    linarith [h.size, h.error]
  have hdrift : 0 ≤ drift n m := drift_nonneg (by linarith)
  have hsmall : (2 : ℚ) ^ (-1075 : ℤ) ≤ 2 ^ (-54 : ℤ) := zpow_le_zpow_right₀ (by norm_num) (by norm_num)
  have hunit : (2 : ℚ) ^ (-54 : ℤ) = 2 ^ (-53 : ℤ) / 2 := by norm_num
  have hdouble : (2 : ℚ) ^ (-52 : ℤ) = 2 * 2 ^ (-53 : ℤ) := by norm_num
  have hmul : (2 : ℚ) ^ (-53 : ℤ) * |x| ≤ 2 ^ (-53 : ℤ) * (m + (1 / 2 + drift n m)) := by
    gcongr
    linarith
  have hmargin : (2 : ℚ) ^ (-53 : ℤ) * 1 ≤ 2 ^ (-53 : ℤ) * m := by gcongr
  have herror := h.error
  have hpos : 0 ≤ (2 : ℚ) ^ (-53 : ℤ) * drift n m := mul_nonneg (by positivity) hdrift
  rw [drift_succ, hdouble]
  rw [hunit] at hsmall
  generalize (2 : ℚ) ^ (-53 : ℤ) = u at *
  generalize (2 : ℚ) ^ (-1075 : ℤ) = t at *
  linarith

theorem Near.mono {m' : ℚ} (h : Near c n m x y) (hm : m ≤ m') : Near c n m' x y := by
  refine ⟨h.size.trans hm, h.error.trans ?_⟩
  have hpow : (1 : ℚ) ≤ (1 + 2 ^ (-52 : ℤ)) ^ n := one_le_pow₀ (by norm_num)
  unfold drift
  have hle := mul_le_mul_of_nonneg_left hm (sub_nonneg.mpr hpow)
  linarith

end Near

/-! ## Operations with a finite result -/

theorem toRat_ofRat {q r : ℚ} (h : (ofRat q).toRat = some r) : r = nearest q := by
  unfold ofRat at h
  split_ifs at h
  · exact (Option.some.inj h).symm
  · cases h

theorem neg_of_zero {q : ℚ} (hq : Representable q) (h : q = 0) : (finite q hq).neg = negZero :=
  if_pos h

theorem neg_of_ne_zero {q : ℚ} (hq : Representable q) (h : q ≠ 0) :
    (finite q hq).neg = finite (-q) hq.neg := if_neg h

/-- A finite sum is the sum of two finite numbers, rounded. -/
theorem toRat_add {x y : Binary64} {r : ℚ} (h : (x.add y).toRat = some r) :
    ∃ p q, x.toRat = some p ∧ y.toRat = some q ∧ r = nearest (p + q) := by
  cases x with
  | nan => cases y <;> cases h
  | inf s =>
    cases y with
    | finite q hq =>
      by_cases hzero : q = 0
      · rw [add, neg_of_zero hq hzero] at h
        cases h
      · rw [add, neg_of_ne_zero hq hzero] at h
        cases h
    | negZero => cases h
    | inf t =>
      have hsum : (inf s).add (inf t) = if s = !t then nan else inf s := rfl
      rw [hsum] at h
      split_ifs at h <;> cases h
    | nan => cases h
  | finite p hp =>
    cases y with
    | finite q hq =>
      rw [add_finite] at h
      exact ⟨p, q, rfl, rfl, toRat_ofRat h⟩
    | negZero =>
      refine ⟨p, 0, rfl, rfl, ?_⟩
      have hsub : (ofRat (p - 0)).toRat = some r := h
      rw [sub_zero] at hsub
      rw [add_zero]
      exact toRat_ofRat hsub
    | inf t => cases h
    | nan => cases h
  | negZero =>
    cases y with
    | finite q hq =>
      refine ⟨0, q, rfl, rfl, ?_⟩
      rw [zero_add]
      by_cases hzero : q = 0
      · rw [add, neg_of_zero hq hzero] at h
        rw [hzero]
        exact toRat_ofRat h
      · rw [add, neg_of_ne_zero hq hzero, sub, if_neg (neg_ne_zero.mpr hzero), neg_neg] at h
        exact toRat_ofRat h
    | negZero =>
      refine ⟨0, 0, rfl, rfl, ?_⟩
      rw [add_zero, nearest_zero]
      have hsum : negZero.add negZero = negZero := by
        show (if (0 : ℚ) = 0 then negZero else ofRat (-0)) = negZero
        exact if_pos rfl
      rw [hsum] at h
      exact (Option.some.inj h).symm
    | inf t => cases h
    | nan => cases h

/-! ## Sums -/

/-- The terms of a sum are finite where it is. -/
theorem toRat_of_foldl_add {xs : List Binary64} {z : Binary64} {r : ℚ}
    (h : (xs.foldl add z).toRat = some r) : ∃ p, z.toRat = some p := by
  induction xs generalizing z with
  | nil => exact ⟨r, h⟩
  | cons x xs ih =>
    obtain ⟨s, hs⟩ := ih h
    obtain ⟨p, -, hp, -, -⟩ := toRat_add hs
    exact ⟨p, hp⟩

section Sum

variable {c m e s r q : ℚ} {k : ℕ}

/-- An exact term more, on both sides. -/
theorem Near.add_term (h : Near c k (k * m) s e) (hq : |q| ≤ m) :
    Near c k ((k + 1 : ℕ) * m) (s + q) (e + q) := by
  have hm : 0 ≤ m := (abs_nonneg q).trans hq
  have hsize : (k : ℚ) * m ≤ (k + 1 : ℕ) * m := by
    push_cast
    linarith
  refine ⟨?_, ?_⟩
  · have hsum := abs_add_le e q
    have he := h.size
    push_cast
    linarith
  · rw [add_sub_add_right_eq_sub]
    exact (h.mono hsize).error

/-- **A sum of doubles is near the exact sum**, unless it overflows. -/
theorem foldl_add_near {xs : List Binary64} {z : Binary64} (hm : 1 ≤ m)
    (hxs : ∀ x ∈ xs, ∀ q, x.toRat = some q → |q| ≤ m) (hz : z.toRat = some s)
    (h : Near 0 k (k * m) s e) (hr : (xs.foldl add z).toRat = some r) :
    ∃ qs : List ℚ, List.Forall₂ (fun x q => x.toRat = some q) xs qs ∧
      Near 0 (k + xs.length) ((k + xs.length : ℕ) * m) r (e + qs.sum) := by
  induction xs generalizing z k s e with
  | nil =>
    obtain rfl := Option.some.inj (hz.symm.trans hr)
    refine ⟨[], .nil, ?_⟩
    rw [List.sum_nil, add_zero]
    exact h
  | cons x xs ih =>
    obtain ⟨hx, hrest⟩ := List.forall_mem_cons.mp hxs
    obtain ⟨s', hs'⟩ := @toRat_of_foldl_add xs (z.add x) r hr
    obtain ⟨p, q, hp, hq, rfl⟩ := toRat_add hs'
    obtain rfl := Option.some.inj (hz.symm.trans hp)
    have hsize : 1 ≤ ((k + 1 : ℕ) : ℚ) * m := by
      push_cast
      nlinarith [(Nat.cast_nonneg k : (0 : ℚ) ≤ k)]
    have hnext : Near 0 (k + 1) ((k + 1 : ℕ) * m) (nearest (s + q)) (e + q) :=
      (h.add_term (hx q hq)).round (by norm_num) hsize
    obtain ⟨qs, hqs, hnear⟩ := ih hrest hs' hnext hr
    refine ⟨q :: qs, .cons hq hqs, ?_⟩
    have hlength : k + (x :: xs).length = k + 1 + xs.length := by
      rw [List.length_cons]
      omega
    rw [hlength, List.sum_cons, ← add_assoc]
    exact hnear

end Sum

/-! ## Quotients -/

theorem toRat_ofSigned_of_lt {q : ℚ} (negative : Bool) (h : |nearest q| < 2 ^ (1024 : ℤ)) :
    (ofSigned negative q).toRat = some (nearest q) := by
  unfold ofSigned ofRat
  split_ifs with hzero hnegative
  · rw [hzero]
    rfl
  · rw [hzero]
    rfl
  · rfl

theorem abs_nearest_lt_of_le {q : ℚ} (h : |q| ≤ 2 ^ (1023 : ℤ)) :
    |nearest q| < 2 ^ (1024 : ℤ) := by
  have hround := abs_nearest_sub_le q
  have hsplit : |nearest q| ≤ |nearest q - q| + |q| := by
    simpa using abs_add_le (nearest q - q) q
  have hsmall : (2 : ℚ) ^ (-1075 : ℤ) ≤ 1 := zpow_le_one_of_nonpos₀ (by norm_num) (by norm_num)
  have hunit : (2 : ℚ) ^ (-53 : ℤ) * |q| ≤ 1 / 4 * 2 ^ (1023 : ℤ) :=
    mul_le_mul (by norm_num) h (abs_nonneg q) (by norm_num)
  have hlarge : (4 : ℚ) ≤ 2 ^ (1023 : ℤ) := by
    rw [show (4 : ℚ) = 2 ^ (2 : ℤ) by norm_num]
    exact zpow_le_zpow_right₀ (by norm_num) (by norm_num)
  have hdouble : (2 : ℚ) ^ (1024 : ℤ) = 2 * 2 ^ (1023 : ℤ) := by
    rw [← zpow_one_add₀ two_ne_zero]
    norm_num
  rw [hdouble]
  clear hdouble
  generalize (2 : ℚ) ^ (1023 : ℤ) = large at *
  generalize (2 : ℚ) ^ (-53 : ℤ) * |q| = err at *
  generalize (2 : ℚ) ^ (-1075 : ℤ) = small at *
  linarith

theorem abs_lt_of_toRat {x : Binary64} {q : ℚ} (h : x.toRat = some q) :
    |q| < 2 ^ (1024 : ℤ) ∧ nearest q = q := by
  cases x with
  | finite p hp =>
    obtain rfl := Option.some.inj h
    exact ⟨hp.abs_lt, nearest_of_representable hp⟩
  | negZero =>
    obtain rfl := Option.some.inj h
    rw [abs_zero, nearest_zero]
    exact ⟨by positivity, rfl⟩
  | inf s => cases h
  | nan => cases h

theorem toRat_ofInt_natCast {n : ℕ} (h : n < 2 ^ 53) : (ofInt n).toRat = some (n : ℚ) := by
  rw [ofInt_of_abs_lt (by rw [Nat.abs_cast]; exact_mod_cast h)]
  rfl

theorem mul_of_toRat {x y : Binary64} {p q : ℚ} (hx : x.toRat = some p) (hy : y.toRat = some q) :
    x.mul y = ofSigned (x.isNegative != y.isNegative) (p * q) := by
  unfold mul
  simp only [hx, hy]

section Quotient

variable {x : Binary64} {p c m y : ℚ} {n k : ℕ}

/-- The quotient by a positive integer is finite, and rounded once. -/
theorem toRat_div_ofInt (hx : x.toRat = some p) (hn : 0 < n) (hlt : n < 2 ^ 53) :
    (x.div (ofInt n)).toRat = some (nearest (p / n)) := by
  have hofInt := toRat_ofInt_natCast hlt
  have hne : (n : ℚ) ≠ 0 := by exact_mod_cast hn.ne'
  have hdiv : x.div (ofInt n) = ofSigned (x.isNegative != (ofInt n).isNegative) (p / n) := by
    unfold div
    simp only [hx, hofInt, if_neg hne]
  rw [hdiv]
  apply toRat_ofSigned_of_lt
  obtain ⟨hsize, hexact⟩ := abs_lt_of_toRat hx
  rcases Nat.eq_or_lt_of_le hn with rfl | htwo
  · rw [Nat.cast_one, div_one, hexact]
    exact hsize
  · apply abs_nearest_lt_of_le
    have hcast : (2 : ℚ) ≤ n := by exact_mod_cast htwo
    have hdouble : (2 : ℚ) ^ (1024 : ℤ) = 2 * 2 ^ (1023 : ℤ) := by
      rw [← zpow_one_add₀ two_ne_zero]
      norm_num
    rw [abs_div, Nat.abs_cast, div_le_iff₀ (by linarith)]
    rw [hdouble] at hsize
    have hpos : (0 : ℚ) < 2 ^ (1023 : ℤ) := by positivity
    have hmul := mul_le_mul_of_nonneg_left hcast hpos.le
    generalize (2 : ℚ) ^ (1023 : ℤ) = large at *
    linarith

theorem Near.div_natCast (h : Near 0 k (n * m) p y) (hn : 0 < n) :
    Near 0 k m (p / n) (y / n) := by
  have hpos : (0 : ℚ) < n := by exact_mod_cast hn
  refine ⟨?_, ?_⟩
  · rw [abs_div, abs_of_pos hpos, div_le_iff₀ hpos, mul_comm]
    exact h.size
  · have herror := h.error
    rw [drift_mul, zero_add] at herror
    rw [← sub_div, abs_div, abs_of_pos hpos, div_le_iff₀ hpos, zero_add, mul_comm]
    exact herror

end Quotient

/-! ## Decimal places -/

/-- `Number(x.toFixed(digits))`: so many decimal places, ties away from zero; a number from
`10 ^ 21` on stays as it is. -/
def toFixed (digits : ℕ) (x : Binary64) : Binary64 :=
  match x.toRat with
  | none => x
  | some q =>
    if |q| < 10 ^ 21 then
      .ofSigned (decide (q < 0)) ((if q < 0 then -⌊-q * 10 ^ digits + 1 / 2⌋
        else ⌊q * 10 ^ digits + 1 / 2⌋ : ℤ) / 10 ^ digits)
    else x

theorem toFixed_of_toRat_none {digits : ℕ} {x : Binary64} (h : x.toRat = none) :
    toFixed digits x = x := by
  unfold toFixed
  rw [h]

/-- A number that is not negative, rounded to an integer. -/
theorem toRat_toFixed_zero {x : Binary64} {q : ℚ} (hx : x.toRat = some q) (hq : 0 ≤ q)
    (hlt : q < 2 ^ 50) : (toFixed 0 x).toRat = some (⌊q + 1 / 2⌋ : ℚ) := by
  have hsize : |q| < 10 ^ 21 := by
    rw [abs_of_nonneg hq]
    exact hlt.trans (by norm_num)
  have hrep : Representable (⌊q + 1 / 2⌋ : ℚ) := by
    apply representable_intCast
    rw [abs_of_nonneg (Int.floor_nonneg.mpr (by linarith)), Int.floor_lt]
    push_cast
    exact lt_trans (by linarith) (by norm_num : (2 : ℚ) ^ 50 + 1 < 2 ^ 53)
  have hround := nearest_of_representable hrep
  unfold toFixed
  rw [hx]
  simp only [if_pos hsize, if_neg (not_lt.mpr hq), pow_zero, mul_one, div_one]
  rw [toRat_ofSigned_of_lt _ (by rw [hround]; exact hrep.abs_lt), hround]

/-- The decimal number that is taken is within half of the last decimal place. -/
theorem abs_decimal_sub_le (digits : ℕ) (q : ℚ) :
    |((if q < 0 then -⌊-q * 10 ^ digits + 1 / 2⌋ else ⌊q * 10 ^ digits + 1 / 2⌋ : ℤ) : ℚ) /
      10 ^ digits - q| ≤ 1 / 2 / 10 ^ digits := by
  have hpos : (0 : ℚ) < 10 ^ digits := by positivity
  have hfloor : ∀ y : ℚ, |(⌊y + 1 / 2⌋ : ℚ) - y| ≤ 1 / 2 := by
    intro y
    have hle := Int.floor_le (y + 1 / 2)
    have hlt := Int.lt_floor_add_one (y + 1 / 2)
    rw [abs_le]
    constructor <;> linarith
  have hround : |((if q < 0 then -⌊-q * 10 ^ digits + 1 / 2⌋ else ⌊q * 10 ^ digits + 1 / 2⌋ : ℤ) :
      ℚ) - q * 10 ^ digits| ≤ 1 / 2 := by
    split_ifs
    · have hneg := hfloor (-q * 10 ^ digits)
      rw [neg_mul, sub_neg_eq_add] at hneg
      rw [Int.cast_neg, ← abs_neg, neg_sub, sub_neg_eq_add, add_comm, neg_mul]
      exact hneg
    · exact hfloor (q * 10 ^ digits)
  generalize ((if q < 0 then -⌊-q * 10 ^ digits + 1 / 2⌋ else ⌊q * 10 ^ digits + 1 / 2⌋ : ℤ) : ℚ) =
    decimal at hround ⊢
  have hsub : decimal / 10 ^ digits - q = (decimal - q * 10 ^ digits) / 10 ^ digits := by
    rw [sub_div, mul_div_cancel_right₀ q hpos.ne']
  rw [hsub, abs_div, abs_of_pos hpos]
  exact div_le_div_of_nonneg_right hround hpos.le

/-- **Rounding to decimal places** is one more rounding, besides that of the decimals. -/
theorem Near.toFixed {digits n : ℕ} {m q y : ℚ} {x : Binary64} (hx : x.toRat = some q)
    (h : Near 0 n m q y) (hm : 1 ≤ m) :
    ∃ r, (x.toFixed digits).toRat = some r ∧ Near (1 / 2 / 10 ^ digits) (n + 1) m r y := by
  have hten : (1 : ℚ) ≤ 10 ^ digits := one_le_pow₀ (by norm_num)
  have hhalf : (1 : ℚ) / 2 / 10 ^ digits ≤ 1 / 2 := div_le_self (by norm_num) hten
  have hplace : (0 : ℚ) ≤ 1 / 2 / 10 ^ digits := by positivity
  unfold Binary64.toFixed
  rw [hx]
  simp only
  have hdecimal := abs_decimal_sub_le digits q
  generalize ((if q < 0 then -⌊-q * 10 ^ digits + 1 / 2⌋ else ⌊q * 10 ^ digits + 1 / 2⌋ : ℤ) : ℚ) /
    10 ^ digits = decimal at hdecimal ⊢
  have hnear : Near (1 / 2 / 10 ^ digits) n m decimal y := by
    refine ⟨h.size, ?_⟩
    have hsplit : |decimal - y| ≤ |decimal - q| + |q - y| := abs_sub_le _ _ _
    have herror := h.error
    linarith
  split_ifs with hsize
  · refine ⟨nearest decimal, toRat_ofSigned_of_lt _ (abs_nearest_lt_of_le ?_), hnear.round hhalf hm⟩
    have habs : |decimal| ≤ |decimal - q| + |q| := by
      simpa using abs_add_le (decimal - q) q
    have hlarge : (10 : ℚ) ^ 21 + 1 ≤ 2 ^ (1023 : ℤ) := by
      have hpow : (2 : ℚ) ^ (70 : ℤ) ≤ 2 ^ (1023 : ℤ) :=
        zpow_le_zpow_right₀ (by norm_num) (by norm_num)
      exact le_trans (by norm_num) hpow
    generalize (2 : ℚ) ^ (1023 : ℤ) = large at *
    linarith
  · refine ⟨q, hx, h.size, ?_⟩
    have herror := h.error
    have hgrow : drift n m ≤ drift (n + 1) m := by
      rw [drift_succ]
      have hnonneg : 0 ≤ drift n m := drift_nonneg (by linarith)
      have hstep : 0 ≤ (2 : ℚ) ^ (-52 : ℤ) * (m + drift n m) := by positivity
      linarith
    linarith

/-! ## The order -/

/-- The place of a number on the line, with an end on each side. -/
def place : Binary64 → WithBot (WithTop ℚ)
  | finite q _ => ((q : WithTop ℚ) : WithBot (WithTop ℚ))
  | negZero => ((0 : WithTop ℚ) : WithBot (WithTop ℚ))
  | inf true => ⊥
  | inf false => ((⊤ : WithTop ℚ) : WithBot (WithTop ℚ))
  | nan => ⊥

theorem le_iff_place {x y : Binary64} : x.le y = true ↔ x ≠ nan ∧ y ≠ nan ∧ x.place ≤ y.place := by
  rcases x with ⟨p, hp⟩ | _ | s | _ <;> rcases y with ⟨q, hq⟩ | _ | t | _
  all_goals try cases s
  all_goals try cases t
  all_goals simp [le, place, toRat, ← WithTop.coe_zero]
  all_goals exact decide_eq_true_iff

theorem le_trans_of_le {x y z : Binary64} (hxy : x.le y = true) (hyz : y.le z = true) :
    x.le z = true := by
  rw [le_iff_place] at hxy hyz ⊢
  exact ⟨hxy.1, hyz.2.1, hxy.2.2.trans hyz.2.2⟩

theorem le_total_of_ne_nan {x y : Binary64} (hx : x ≠ nan) (hy : y ≠ nan) :
    x.le y = true ∨ y.le x = true := by
  rw [le_iff_place, le_iff_place]
  exact (le_total x.place y.place).imp (fun h => ⟨hx, hy, h⟩) fun h => ⟨hy, hx, h⟩

theorem place_of_toRat {x : Binary64} {q : ℚ} (h : x.toRat = some q) :
    x ≠ nan ∧ x.place = ((q : WithTop ℚ) : WithBot (WithTop ℚ)) := by
  cases x with
  | finite p hp =>
    obtain rfl := Option.some.inj h
    exact ⟨Binary64.noConfusion, rfl⟩
  | negZero =>
    obtain rfl := Option.some.inj h
    exact ⟨Binary64.noConfusion, rfl⟩
  | inf s => cases h
  | nan => cases h

theorem le_of_toRat {x y : Binary64} {p q : ℚ} (hx : x.toRat = some p) (hy : y.toRat = some q) :
    x.le y = true ↔ p ≤ q := by
  obtain ⟨hxnan, hxplace⟩ := place_of_toRat hx
  obtain ⟨hynan, hyplace⟩ := place_of_toRat hy
  rw [le_iff_place, hxplace, hyplace, WithBot.coe_le_coe, WithTop.coe_le_coe]
  exact ⟨fun h => h.2.2, fun h => ⟨hxnan, hynan, h⟩⟩

end Binary64
