/-
# The binary64 number format

IEEE 754 double precision over the rational numbers: a finite number is a
rational with a significand of at most 53 bits and a bounded exponent, `nearest`
rounds a rational to such a number, ties to even, and the arithmetic of the
format is rational arithmetic followed by rounding.

* `representable_nearest` : a rounded rational below `2 ^ 1024` is representable,
  so `ofRat` builds a finite number or overflows to an infinity.
* `nearest_of_representable` : a representable number is not changed by rounding.
-/
import Mathlib

namespace Binary64

/-! ## Rounding -/

/-- The nearest integer, ties to even. -/
def roundEven (q : ℚ) : ℤ :=
  if q - ⌊q⌋ < 1 / 2 then ⌊q⌋
  else if 1 / 2 < q - ⌊q⌋ then ⌊q⌋ + 1
  else if 2 ∣ ⌊q⌋ then ⌊q⌋
  else ⌊q⌋ + 1

/-- The exponent of the last place of a number of this size. -/
def lastPlace (q : ℚ) : ℤ := max (Int.log 2 |q| - 52) (-1074)

/-- The nearest number with 53 significant bits, the exponent not bounded above. -/
def nearest (q : ℚ) : ℚ := roundEven (q / 2 ^ lastPlace q) * 2 ^ lastPlace q

/-- The finite numbers of the format. -/
def Representable (q : ℚ) : Prop :=
  ∃ m e : ℤ, |m| < 2 ^ 53 ∧ -1074 ≤ e ∧ e ≤ 971 ∧ q = m * 2 ^ e

theorem roundEven_intCast (n : ℤ) : roundEven n = n := by
  unfold roundEven
  rw [Int.floor_intCast, sub_self, if_pos (by norm_num)]

theorem roundEven_mem (q : ℚ) : roundEven q = ⌊q⌋ ∨ roundEven q = ⌊q⌋ + 1 := by
  unfold roundEven
  split_ifs
  · exact Or.inl rfl
  · exact Or.inr rfl
  · exact Or.inl rfl
  · exact Or.inr rfl

/-- Rounding does not pass an integer upwards. -/
theorem roundEven_le {q : ℚ} {n : ℤ} (h : q ≤ n) : roundEven q ≤ n := by
  by_cases hn : ⌊q⌋ + 1 ≤ n
  · rcases roundEven_mem q with h | h <;> omega
  · have hq : q = n := by
      apply le_antisymm h
      have hle : n ≤ ⌊q⌋ := by omega
      exact le_trans (by exact_mod_cast hle) (Int.floor_le q)
    rw [hq, roundEven_intCast]

/-- Rounding does not pass an integer downwards. -/
theorem le_roundEven {q : ℚ} {n : ℤ} (h : (n : ℚ) ≤ q) : n ≤ roundEven q := by
  have hfloor : n ≤ ⌊q⌋ := Int.le_floor.mpr h
  rcases roundEven_mem q with h | h <;> omega

theorem abs_roundEven_le {q : ℚ} {n : ℤ} (h : |q| ≤ n) : |roundEven q| ≤ n := by
  obtain ⟨hl, hu⟩ := abs_le.mp h
  exact abs_le.mpr ⟨le_roundEven (by push_cast; exact hl), roundEven_le hu⟩

theorem le_abs_roundEven {q : ℚ} {n : ℤ} (h : (n : ℚ) ≤ |q|) : n ≤ |roundEven q| := by
  rcases le_abs.mp h with h | h
  · exact le_abs.mpr (Or.inl (le_roundEven h))
  · have hle : roundEven q ≤ -n := roundEven_le (by push_cast; linarith)
    exact le_abs.mpr (Or.inr (by omega))

/-- Rounding to an integer is symmetric. -/
theorem roundEven_neg (q : ℚ) : roundEven (-q) = -roundEven q := by
  by_cases hint : q = ⌊q⌋
  · rw [hint, roundEven_intCast]
    have h := roundEven_intCast (-⌊q⌋)
    rwa [Int.cast_neg] at h
  · have hlt : (⌊q⌋ : ℚ) < q := lt_of_le_of_ne (Int.floor_le q) (Ne.symm hint)
    have hfloor : ⌊-q⌋ = -⌊q⌋ - 1 := by
      rw [Int.floor_eq_iff]
      push_cast
      exact ⟨by linarith [Int.lt_floor_add_one q], by linarith⟩
    have hrest : -q - ⌊-q⌋ = 1 - (q - ⌊q⌋) := by
      rw [hfloor]
      push_cast
      ring
    unfold roundEven
    rw [hrest, hfloor]
    split_ifs <;> first | omega | (exfalso; linarith)

theorem lastPlace_neg (q : ℚ) : lastPlace (-q) = lastPlace q := by
  unfold lastPlace
  rw [abs_neg]

/-- Rounding is symmetric. -/
theorem nearest_neg (q : ℚ) : nearest (-q) = -nearest q := by
  unfold nearest
  rw [lastPlace_neg, neg_div, roundEven_neg, Int.cast_neg, neg_mul]

theorem abs_div_lastPlace_le (q : ℚ) : |q / 2 ^ lastPlace q| ≤ ((2 ^ 53 : ℤ) : ℚ) := by
  have hpos : (0 : ℚ) < 2 ^ lastPlace q := by positivity
  rw [abs_div, abs_of_pos hpos, div_le_iff₀ hpos]
  have hlog : |q| < (2 : ℚ) ^ (Int.log 2 |q| + 1) := by
    have := Int.lt_zpow_succ_log_self (b := 2) (by norm_num) |q|
    exact_mod_cast this
  have hexp : Int.log 2 |q| + 1 ≤ 53 + lastPlace q := by
    have := le_max_left (Int.log 2 |q| - 52) (-1074)
    unfold lastPlace
    omega
  calc |q| ≤ (2 : ℚ) ^ (Int.log 2 |q| + 1) := hlog.le
    _ ≤ (2 : ℚ) ^ (53 + lastPlace q) := zpow_le_zpow_right₀ (by norm_num) hexp
    _ = ((2 ^ 53 : ℤ) : ℚ) * 2 ^ lastPlace q := by
      rw [zpow_add₀ (by norm_num)]
      norm_num

/-- Above the subnormal numbers all 53 bits of the significand are used. -/
theorem le_abs_div_lastPlace {q : ℚ} (hq : q ≠ 0) (h : -1074 < lastPlace q) :
    ((2 ^ 52 : ℤ) : ℚ) ≤ |q / 2 ^ lastPlace q| := by
  have hexp : lastPlace q = Int.log 2 |q| - 52 := by
    unfold lastPlace at h ⊢
    omega
  have hpos : (0 : ℚ) < 2 ^ lastPlace q := by positivity
  rw [abs_div, abs_of_pos hpos, le_div_iff₀ hpos]
  have hlog : (2 : ℚ) ^ Int.log 2 |q| ≤ |q| := by
    have := Int.zpow_log_le_self (b := 2) (by norm_num) (abs_pos.mpr hq)
    exact_mod_cast this
  calc ((2 ^ 52 : ℤ) : ℚ) * 2 ^ lastPlace q = (2 : ℚ) ^ (52 + lastPlace q) := by
        rw [zpow_add₀ (by norm_num)]
        norm_num
    _ = (2 : ℚ) ^ Int.log 2 |q| := by rw [hexp]; congr 1; omega
    _ ≤ |q| := hlog

/-- A number above the subnormal ones is not rounded to zero. -/
theorem nearest_ne_zero {q : ℚ} (hq : q ≠ 0) (h : -1074 < lastPlace q) : nearest q ≠ 0 := by
  have hround : 2 ^ 52 ≤ |roundEven (q / 2 ^ lastPlace q)| :=
    le_abs_roundEven (le_abs_div_lastPlace hq h)
  have hne : roundEven (q / 2 ^ lastPlace q) ≠ 0 := by
    intro hzero
    rw [hzero, abs_zero] at hround
    omega
  exact mul_ne_zero (Int.cast_ne_zero.mpr hne) (by positivity)

theorem nearest_zero : nearest 0 = 0 := by
  unfold nearest
  rw [zero_div]
  have h : roundEven 0 = 0 := roundEven_intCast 0
  rw [h, Int.cast_zero, zero_mul]

theorem nearest_intCast_eq_zero_iff {n : ℤ} : nearest n = 0 ↔ n = 0 := by
  constructor
  · intro h
    by_contra hn
    refine nearest_ne_zero (Int.cast_ne_zero.mpr hn) ?_ h
    have habs : (1 : ℚ) ≤ |(n : ℚ)| := by
      rw [← Int.cast_abs]
      exact_mod_cast Int.one_le_abs hn
    have hlog : 0 ≤ Int.log 2 |(n : ℚ)| := by
      have hmono := Int.log_mono_right (b := 2) one_pos habs
      rwa [Int.log_one_right] at hmono
    unfold lastPlace
    omega
  · rintro rfl
    rw [Int.cast_zero, nearest_zero]

theorem representable_zero : Representable 0 := ⟨0, 0, by norm_num, by norm_num, by norm_num, by simp⟩

/-- **A rounded rational is representable**, unless it is too large. -/
theorem representable_nearest {q : ℚ} (h : |nearest q| < 2 ^ (1024 : ℤ)) :
    Representable (nearest q) := by
  by_cases hq : q = 0
  · rw [hq, nearest_zero]
    exact representable_zero
  set m := roundEven (q / 2 ^ lastPlace q) with hm
  set e := lastPlace q with he
  have hround : nearest q = m * 2 ^ e := rfl
  have hmle : |m| ≤ 2 ^ 53 := abs_roundEven_le (abs_div_lastPlace_le q)
  have hge : -1074 ≤ e := le_max_right _ _
  have hpos : (0 : ℚ) < 2 ^ e := by positivity
  rw [hround, abs_mul, abs_of_pos hpos] at h
  -- a significand of `k` bits bounds the exponent
  have hbound : ∀ k : ℕ, (2 : ℤ) ^ k ≤ |m| → (k : ℤ) + e < 1024 := by
    intro k hk
    have hk' : (2 : ℚ) ^ (k : ℤ) ≤ |(m : ℚ)| := by
      rw [zpow_natCast]
      exact_mod_cast hk
    have hlt : (2 : ℚ) ^ ((k : ℤ) + e) < 2 ^ (1024 : ℤ) := by
      rw [zpow_add₀ (by norm_num)]
      exact lt_of_le_of_lt (mul_le_mul_of_nonneg_right hk' hpos.le) h
    exact (zpow_lt_zpow_iff_right₀ (by norm_num)).mp hlt
  rcases lt_or_eq_of_le hmle with hlt | heq
  · refine ⟨m, e, hlt, hge, ?_, hround⟩
    rcases lt_or_eq_of_le hge with hnormal | hsub
    · have := hbound 52 (le_abs_roundEven (le_abs_div_lastPlace hq hnormal))
      omega
    · omega
  · -- a carry out of the significand
    have he' := hbound 53 heq.ge
    refine ⟨m / 2, e + 1, ?_, by omega, by omega, ?_⟩
    · rcases abs_eq (by norm_num : (0 : ℤ) ≤ 2 ^ 53) |>.mp heq with h | h <;> rw [h] <;> norm_num
    · rw [hround, zpow_add₀ (by norm_num)]
      rcases abs_eq (by norm_num : (0 : ℤ) ≤ 2 ^ 53) |>.mp heq with h | h <;> rw [h] <;>
        norm_num <;> ring

theorem Representable.abs_lt {q : ℚ} (h : Representable q) : |q| < 2 ^ (1024 : ℤ) := by
  obtain ⟨m, e, hm, -, he, rfl⟩ := h
  have hpos : (0 : ℚ) < 2 ^ e := by positivity
  have hm' : |(m : ℚ)| < 2 ^ (53 : ℤ) := by exact_mod_cast hm
  rw [abs_mul, abs_of_pos hpos]
  calc |(m : ℚ)| * 2 ^ e < 2 ^ (53 : ℤ) * 2 ^ e := mul_lt_mul_of_pos_right hm' hpos
    _ = 2 ^ (53 + e) := (zpow_add₀ (by norm_num) _ _).symm
    _ ≤ 2 ^ (1024 : ℤ) := zpow_le_zpow_right₀ (by norm_num) (by omega)

/-- The last place of a representable number is not above the exponent it is written with. -/
theorem lastPlace_le {m e : ℤ} (hm : |m| < 2 ^ 53) (he : -1074 ≤ e) (hq : (m : ℚ) * 2 ^ e ≠ 0) :
    lastPlace (m * 2 ^ e) ≤ e := by
  have hpos : (0 : ℚ) < 2 ^ e := by positivity
  have hm' : |(m : ℚ)| < 2 ^ (53 : ℤ) := by exact_mod_cast hm
  have hlt : |(m : ℚ) * 2 ^ e| < 2 ^ (53 + e) := by
    rw [abs_mul, abs_of_pos hpos, zpow_add₀ (by norm_num)]
    exact mul_lt_mul_of_pos_right hm' hpos
  have hlog : Int.log 2 |(m : ℚ) * 2 ^ e| < 53 + e :=
    (Int.lt_zpow_iff_log_lt (by norm_num) (abs_pos.mpr hq)).mp (by exact_mod_cast hlt)
  unfold lastPlace
  omega

/-- **Rounding changes no representable number.** -/
theorem nearest_of_representable {q : ℚ} (h : Representable q) : nearest q = q := by
  by_cases hq : q = 0
  · rw [hq, nearest_zero]
  · obtain ⟨m, e, hm, he, -, rfl⟩ := h
    have hle : lastPlace (m * 2 ^ e) ≤ e := lastPlace_le hm he hq
    obtain ⟨k, hk⟩ := Int.eq_ofNat_of_zero_le (sub_nonneg.mpr hle)
    set p := lastPlace (m * 2 ^ e) with hp
    have hint : (m : ℚ) * 2 ^ e / 2 ^ p = ((m * 2 ^ k : ℤ) : ℚ) := by
      rw [mul_div_assoc, ← zpow_sub₀ (by norm_num), hk]
      push_cast
      rw [zpow_natCast]
    have hne : (2 : ℚ) ^ p ≠ 0 := by positivity
    unfold nearest
    rw [← hp, hint, roundEven_intCast, ← hint, div_mul_cancel₀ _ hne]

theorem Representable.neg {q : ℚ} (h : Representable q) : Representable (-q) := by
  obtain ⟨m, e, hm, hl, hu, rfl⟩ := h
  exact ⟨-m, e, by rwa [abs_neg], hl, hu, by push_cast; ring⟩

theorem Representable.abs {q : ℚ} (h : Representable q) : Representable |q| := by
  rcases abs_choice q with hq | hq
  · rwa [hq]
  · rw [hq]
    exact h.neg

end Binary64

/-! ## The numbers -/

/-- A double: a finite number other than the negative zero, or a special value. -/
inductive Binary64 where
  | finite (value : ℚ) (representable : Binary64.Representable value)
  | negZero
  | inf (negative : Bool)
  | nan
  deriving DecidableEq

namespace Binary64

/-- The rational that a finite number is. -/
def toRat : Binary64 → Option ℚ
  | finite q _ => some q
  | negZero => some 0
  | inf _ => none
  | nan => none

/-- The nearest double; beyond the largest one an infinity. -/
def ofRat (q : ℚ) : Binary64 :=
  if h : |nearest q| < 2 ^ (1024 : ℤ) then finite (nearest q) (representable_nearest h)
  else inf (decide (q < 0))

/-- A double from an integer of any width. -/
def ofInt (n : ℤ) : Binary64 := ofRat n

theorem abs_nearest_le (q : ℚ) : |nearest q| ≤ ((2 ^ 53 : ℤ) : ℚ) * 2 ^ lastPlace q := by
  have hpos : (0 : ℚ) < 2 ^ lastPlace q := by positivity
  have hround : |roundEven (q / 2 ^ lastPlace q)| ≤ 2 ^ 53 :=
    abs_roundEven_le (abs_div_lastPlace_le q)
  unfold nearest
  rw [abs_mul, abs_of_pos hpos]
  refine mul_le_mul_of_nonneg_right ?_ hpos.le
  exact_mod_cast hround

/-- No 64-bit integer is out of range. -/
theorem abs_nearest_lt {n : ℤ} (h : |n| ≤ 2 ^ 63) : |nearest n| < 2 ^ (1024 : ℤ) := by
  rcases eq_or_ne n 0 with rfl | hn
  · rw [Int.cast_zero, nearest_zero, abs_zero]
    positivity
  · have habs : (0 : ℚ) < |(n : ℚ)| := abs_pos.mpr (Int.cast_ne_zero.mpr hn)
    have hsize : |(n : ℚ)| ≤ (2 : ℚ) ^ (63 : ℤ) := by
      rw [← Int.cast_abs]
      exact_mod_cast h
    have hlog : Int.log 2 |(n : ℚ)| ≤ 63 := by
      have hmono := Int.log_mono_right (b := 2) habs hsize
      have hpow : Int.log 2 ((2 : ℚ) ^ (63 : ℤ)) = 63 := by
        exact_mod_cast Int.log_zpow (R := ℚ) (b := 2) (by norm_num) 63
      rwa [hpow] at hmono
    have hplace : lastPlace (n : ℚ) ≤ 11 := by
      unfold lastPlace
      omega
    calc |nearest n| ≤ ((2 ^ 53 : ℤ) : ℚ) * 2 ^ lastPlace (n : ℚ) := abs_nearest_le n
      _ ≤ ((2 ^ 53 : ℤ) : ℚ) * 2 ^ (11 : ℤ) := by
        refine mul_le_mul_of_nonneg_left ?_ (by positivity)
        exact zpow_le_zpow_right₀ (by norm_num) hplace
      _ = 2 ^ (64 : ℤ) := by norm_num
      _ < 2 ^ (1024 : ℤ) := zpow_lt_zpow_right₀ (by norm_num) (by norm_num)

theorem ofInt_of_abs_le {n : ℤ} (h : |n| ≤ 2 ^ 63) :
    ∃ hrep, ofInt n = finite (nearest n) hrep :=
  ⟨_, dif_pos (abs_nearest_lt h)⟩

theorem ofRat_of_representable {q : ℚ} (h : Representable q) : ofRat q = finite q h := by
  have hq : nearest q = q := nearest_of_representable h
  have hlt : |nearest q| < 2 ^ (1024 : ℤ) := by rw [hq]; exact h.abs_lt
  unfold ofRat
  rw [dif_pos hlt]
  congr 1

/-! ## Arithmetic and comparisons -/

def sub : Binary64 → Binary64 → Binary64
  | nan, _ => nan
  | _, nan => nan
  | inf s, inf t => if s = t then nan else inf s
  | inf s, _ => inf s
  | _, inf t => inf (!t)
  | negZero, negZero => ofRat 0
  | negZero, finite q _ => if q = 0 then negZero else ofRat (-q)
  | finite p _, negZero => ofRat p
  | finite p _, finite q _ => ofRat (p - q)

/-- The number of the other sign. -/
def neg : Binary64 → Binary64
  | finite q h => if q = 0 then negZero else finite (-q) h.neg
  | negZero => finite 0 representable_zero
  | inf s => inf (!s)
  | nan => nan

def add (x y : Binary64) : Binary64 := x.sub y.neg

/-- Whether a number carries the negative sign. -/
def isNegative : Binary64 → Bool
  | finite q _ => q < 0
  | negZero => true
  | inf s => s
  | nan => false

/-- A double from a rational that a zero result takes its sign from. -/
def ofSigned (negative : Bool) (q : ℚ) : Binary64 :=
  if nearest q = 0 then (if negative then negZero else finite 0 representable_zero) else ofRat q

def mul (x y : Binary64) : Binary64 :=
  let negative := x.isNegative != y.isNegative
  match x.toRat, y.toRat with
  | some p, some q => ofSigned negative (p * q)
  | some p, none => if y matches .nan ∨ p = 0 then nan else inf negative
  | none, some q => if x matches .nan ∨ q = 0 then nan else inf negative
  | none, none => if x matches .nan ∨ y matches .nan then nan else inf negative

def div (x y : Binary64) : Binary64 :=
  let negative := x.isNegative != y.isNegative
  match x.toRat, y.toRat with
  | some p, some q =>
    if q = 0 then (if p = 0 then nan else inf negative) else ofSigned negative (p / q)
  | some _, none => if y matches .nan then nan else ofSigned negative 0
  | none, some _ => if x matches .nan then nan else inf negative
  | none, none => nan

/-- `math.Abs`. -/
def abs : Binary64 → Binary64
  | finite q h => finite |q| h.abs
  | negZero => finite 0 representable_zero
  | inf _ => inf false
  | nan => nan

/-- `<=`, false when a NaN is compared. -/
def le : Binary64 → Binary64 → Bool
  | nan, _ => false
  | _, nan => false
  | inf true, _ => true
  | _, inf false => true
  | inf false, _ => false
  | _, inf true => false
  | x, y => x.toRat.getD 0 ≤ y.toRat.getD 0

/-- `==`, under which the zeros are equal and no NaN is equal to itself. -/
def eq (x y : Binary64) : Bool := x.le y && y.le x

theorem eq_self {x : Binary64} (h : x ≠ nan) : x.eq x = true := by
  cases x with
  | finite q hq => simp [eq, le]
  | negZero => rfl
  | inf negative => cases negative <;> rfl
  | nan => exact absurd rfl h

/-- `<`. -/
def lt (x y : Binary64) : Bool := x.le y && !y.le x

def zero : Binary64 := finite 0 representable_zero

/-- The one number that stands for all that are equal to it: the zeros are one. -/
def canonical : Binary64 → Binary64
  | negZero => zero
  | x => x

theorem eq_iff {x y : Binary64} : x.eq y = true ↔ x ≠ nan ∧ x.canonical = y.canonical := by
  have hfinite : ∀ p q : ℚ, decide (p ≤ q) = true ∧ decide (q ≤ p) = true ↔ p = q := by
    intro p q
    rw [decide_eq_true_iff, decide_eq_true_iff, ← le_antisymm_iff]
  unfold eq canonical zero
  rw [Bool.and_eq_true]
  rcases x with ⟨p, hp⟩ | _ | s | _
  · rcases y with ⟨q, hq⟩ | _ | t | _
    · exact (hfinite p q).trans (by simp)
    · exact (hfinite p 0).trans (by simp)
    · cases t <;> simp [le]
    · simp [le]
  · rcases y with ⟨q, hq⟩ | _ | t | _
    · exact (hfinite 0 q).trans (by simp)
    · exact (hfinite 0 0).trans (by simp)
    · cases t <;> simp [le]
    · simp [le]
  · rcases y with ⟨q, hq⟩ | _ | t | _
    · cases s <;> simp [le]
    · cases s <;> simp [le]
    · cases s <;> cases t <;> simp [le]
    · simp [le]
  · simp [le]

end Binary64
