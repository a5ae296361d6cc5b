/-
# Base64

The standard base64 of bytes with padding (RFC 4648), which is what `base64.StdEncoding` of
Go writes, and the arithmetic of decoders that collect the bits of the digits in 32-bit
accumulators.  A text is the list of its bytes.

* `eq_of_sextets` : the bytes of a group, each out of two digits next to each other.
* `lowByte_of_digits` : the byte taken out of an accumulator, whatever has been shifted out.
* `bytes_of_quad` : the bytes taken out of four digits side by side.
-/
import Mathlib

namespace Base64

/-! ## The encoding -/

/-- The digits. -/
def alphabet : List UInt8 :=
  "ABCDEFGHIJKLMNOPQRSTUVWXYZabcdefghijklmnopqrstuvwxyz0123456789+/".toList.map fun c =>
    c.toNat.toUInt8

/-- The sign `=`. -/
def pad : UInt8 := 61

def digit (s : ℕ) : UInt8 := alphabet.getD s pad

/-- The bits of three bytes. -/
def group (a b c : UInt8) : ℕ := (a.toNat * 256 + b.toNat) * 256 + c.toNat

/-- The four digits of three bytes, from the first to the last. -/
def sextet (v : ℕ) (i : ℕ) : ℕ := v / 64 ^ (3 - i) % 64

def encode : List UInt8 → List UInt8
  | [] => []
  | [a] => [digit (sextet (group a 0 0) 0), digit (sextet (group a 0 0) 1), pad, pad]
  | [a, b] =>
    [digit (sextet (group a b 0) 0), digit (sextet (group a b 0) 1),
      digit (sextet (group a b 0) 2), pad]
  | a :: b :: c :: rest =>
    digit (sextet (group a b c) 0) :: digit (sextet (group a b c) 1) ::
      digit (sextet (group a b c) 2) :: digit (sextet (group a b c) 3) :: encode rest

example : encode [72, 105] = [83, 71, 107, 61] := by decide

theorem sextet_lt (v i : ℕ) : sextet v i < 64 := Nat.mod_lt _ (by norm_num)

theorem length_alphabet : alphabet.length = 64 := by decide

/-- The digits differ from each other. -/
theorem nodup_alphabet : alphabet.Nodup := by decide

theorem digit_mem {s : ℕ} (h : s < 64) : digit s ∈ alphabet := by
  unfold digit
  rw [List.getD_eq_getElem _ _ (by rw [length_alphabet]; exact h)]
  exact List.getElem_mem _

theorem idxOf_digit {s : ℕ} (h : s < 64) : alphabet.idxOf (digit s) = s := by
  unfold digit
  rw [List.getD_eq_getElem _ _ (by rw [length_alphabet]; exact h)]
  exact nodup_alphabet.idxOf_getElem s _

theorem ne_of_not_mem {b : UInt8} (hb : b ∉ alphabet) {s : ℕ} (h : s < 64) : digit s ≠ b := by
  rintro rfl
  exact hb (digit_mem h)

/-- The digits of three bytes, byte by byte. -/
theorem sextet_group (a b c : UInt8) :
    sextet (group a b c) 0 = a.toNat / 4 ∧
      sextet (group a b c) 1 = a.toNat % 4 * 16 + b.toNat / 16 ∧
      sextet (group a b c) 2 = b.toNat % 16 * 4 + c.toNat / 64 ∧
      sextet (group a b c) 3 = c.toNat % 64 := by
  have ha := a.toNat_lt
  have hb := b.toNat_lt
  have hc := c.toNat_lt
  unfold sextet group
  norm_num
  omega

/-- The three bytes, each out of two digits next to each other. -/
theorem eq_of_sextets (a b c : UInt8) :
    (sextet (group a b c) 0 * 64 + sextet (group a b c) 1) / 2 ^ 4 % 256 = a.toNat ∧
      (sextet (group a b c) 1 * 64 + sextet (group a b c) 2) / 2 ^ 2 % 256 = b.toNat ∧
      (sextet (group a b c) 2 * 64 + sextet (group a b c) 3) / 2 ^ 0 % 256 = c.toNat := by
  obtain ⟨h₀, h₁, h₂, h₃⟩ := sextet_group a b c
  have ha := a.toNat_lt
  have hb := b.toNat_lt
  have hc := c.toNat_lt
  rw [h₀, h₁, h₂, h₃]
  omega

/-! ## Accumulators -/

/-- The lowest byte, by masking and truncation. -/
def lowByte (x : BitVec 32) : UInt8 := ⟨(x &&& 0xFF).setWidth 8⟩

theorem toNat_push_or (buf : BitVec 32) {s : ℕ} (h : s < 64) :
    (buf <<< 6 ||| BitVec.ofNat 32 s).toNat = (buf.toNat * 64 + s) % 2 ^ 32 := by
  have hs : s % 2 ^ 32 = s := Nat.mod_eq_of_lt (by omega)
  have hshift : buf.toNat * 2 ^ 6 % 2 ^ 32 = (buf.toNat % 2 ^ 26) <<< 6 := by
    rw [Nat.shiftLeft_eq]
    omega
  rw [BitVec.toNat_or, BitVec.toNat_shiftLeft, BitVec.toNat_ofNat, Nat.shiftLeft_eq, hs, hshift,
    ← Nat.shiftLeft_add_eq_or_of_lt h, Nat.shiftLeft_eq]
  omega

theorem toNat_push_add (buf : BitVec 32) (s : ℕ) :
    (buf <<< 6 + BitVec.ofNat 32 s).toNat = (buf.toNat * 64 + s) % 2 ^ 32 := by
  rw [BitVec.toNat_add, BitVec.toNat_shiftLeft, BitVec.toNat_ofNat, Nat.shiftLeft_eq]
  omega

theorem toNat_lowByte (x : BitVec 32) : (lowByte x).toNat = x.toNat % 256 := by
  have hmask : x.toNat &&& 255 = x.toNat % 256 := Nat.and_two_pow_sub_one_eq_mod x.toNat 8
  show ((x &&& 0xFF).setWidth 8).toNat = _
  rw [BitVec.toNat_setWidth, BitVec.toNat_and]
  show (x.toNat &&& 255) % 2 ^ 8 = _
  rw [hmask]
  omega

/-- The byte above the lowest bits, whether the shift is logical or arithmetic. -/
theorem lowByte_ushiftRight (x : BitVec 32) (k : ℕ) :
    (lowByte (x >>> k)).toNat = x.toNat / 2 ^ k % 256 := by
  rw [toNat_lowByte, BitVec.toNat_ushiftRight, Nat.shiftRight_eq_div_pow]

theorem lowByte_sshiftRight (x : BitVec 32) {k : ℕ} (h : k ≤ 24) :
    lowByte (x.sshiftRight k) = lowByte (x >>> k) := by
  unfold lowByte
  congr 1
  ext i hi
  have hlow : k + i < 32 := by omega
  have hbyte : ¬32 ≤ i := by omega
  simp [BitVec.getElem_setWidth, BitVec.getLsbD_sshiftRight, hlow, hbyte]

/-- **What is taken out of an accumulator** are bits of the last two digits, whatever was
there before and has been shifted out. -/
theorem lowByte_of_digits {buf buf₁ buf₂ : BitVec 32} {s t k : ℕ} {b : UInt8} (hk : k ≤ 4)
    (h₁ : buf₁.toNat = (buf.toNat * 64 + s) % 2 ^ 32)
    (h₂ : buf₂.toNat = (buf₁.toNat * 64 + t) % 2 ^ 32)
    (hb : (s * 64 + t) / 2 ^ k % 256 = b.toNat) : lowByte (buf₂ >>> k) = b := by
  apply UInt8.toNat.inj
  rw [lowByte_ushiftRight, h₂, h₁, ← hb]
  interval_cases k <;> omega

theorem lowByte_push_or (buf : BitVec 32) {s t k : ℕ} {b : UInt8} (hk : k ≤ 4) (hs : s < 64)
    (ht : t < 64) (hb : (s * 64 + t) / 2 ^ k % 256 = b.toNat) :
    lowByte (((buf <<< 6 ||| BitVec.ofNat 32 s) <<< 6 ||| BitVec.ofNat 32 t) >>> k) = b :=
  lowByte_of_digits hk (toNat_push_or buf hs) (toNat_push_or _ ht) hb

theorem lowByte_push_add (val : BitVec 32) {s t k : ℕ} {b : UInt8} (hk : k ≤ 4)
    (hb : (s * 64 + t) / 2 ^ k % 256 = b.toNat) :
    lowByte (((val <<< 6 + BitVec.ofNat 32 s) <<< 6 + BitVec.ofNat 32 t).sshiftRight k) = b := by
  rw [lowByte_sshiftRight _ (by omega)]
  exact lowByte_of_digits hk (toNat_push_add val s) (toNat_push_add _ t) hb

/-- Four digits side by side. -/
theorem toNat_quad {s t u v : ℕ} (hs : s < 64) (ht : t < 64) (hu : u < 64) (hv : v < 64) :
    (BitVec.ofNat 32 s <<< 18 ||| BitVec.ofNat 32 t <<< 12 ||| BitVec.ofNat 32 u <<< 6 |||
      BitVec.ofNat 32 v).toNat = ((s * 64 + t) * 64 + u) * 64 + v := by
  have hshift : ∀ n k, n < 64 → k ≤ 18 → (BitVec.ofNat 32 n <<< k).toNat = n <<< k := by
    intro n k hn hk
    have hpow : 2 ^ k ≤ 2 ^ 18 := Nat.pow_le_pow_right (by norm_num) hk
    have hprod : n * 2 ^ k < 2 ^ 32 := by
      calc n * 2 ^ k ≤ 63 * 2 ^ 18 := Nat.mul_le_mul (by omega) hpow
        _ < 2 ^ 32 := by norm_num
    rw [BitVec.toNat_shiftLeft, BitVec.toNat_ofNat, Nat.mod_eq_of_lt (a := n) (by omega),
      Nat.shiftLeft_eq, Nat.mod_eq_of_lt hprod]
  have h₁ : s <<< 18 ||| t <<< 12 = (s * 64 + t) <<< 12 := by
    rw [← Nat.shiftLeft_add_eq_or_of_lt (by rw [Nat.shiftLeft_eq]; omega)]
    simp only [Nat.shiftLeft_eq]
    omega
  have h₂ : (s * 64 + t) <<< 12 ||| u <<< 6 = ((s * 64 + t) * 64 + u) <<< 6 := by
    rw [← Nat.shiftLeft_add_eq_or_of_lt (by rw [Nat.shiftLeft_eq]; omega)]
    simp only [Nat.shiftLeft_eq]
    omega
  have h₃ : ((s * 64 + t) * 64 + u) <<< 6 ||| v = ((s * 64 + t) * 64 + u) * 64 + v := by
    rw [← Nat.shiftLeft_add_eq_or_of_lt (by omega), Nat.shiftLeft_eq]
  rw [BitVec.toNat_or, BitVec.toNat_or, BitVec.toNat_or, hshift s 18 hs (by omega),
    hshift t 12 ht (by omega), hshift u 6 hu (by omega), BitVec.toNat_ofNat,
    Nat.mod_eq_of_lt (a := v) (by omega), h₁, h₂, h₃]

/-- The digits of three bytes side by side, and the bytes taken out again. -/
theorem bytes_of_quad (a b c : UInt8) {x : BitVec 32}
    (hx : x = BitVec.ofNat 32 (sextet (group a b c) 0) <<< 18 |||
      BitVec.ofNat 32 (sextet (group a b c) 1) <<< 12 |||
      BitVec.ofNat 32 (sextet (group a b c) 2) <<< 6 |||
      BitVec.ofNat 32 (sextet (group a b c) 3)) :
    lowByte (x.sshiftRight 16) = a ∧ lowByte (x.sshiftRight 8) = b ∧ lowByte x = c := by
  obtain ⟨h₀, h₁, h₂, h₃⟩ := sextet_group a b c
  have ha := a.toNat_lt
  have hb := b.toNat_lt
  have hc := c.toNat_lt
  have hx : x.toNat = (a.toNat * 256 + b.toNat) * 256 + c.toNat := by
    rw [hx, toNat_quad (sextet_lt _ _) (sextet_lt _ _) (sextet_lt _ _) (sextet_lt _ _), h₀, h₁,
      h₂, h₃]
    omega
  refine ⟨UInt8.toNat.inj ?_, UInt8.toNat.inj ?_, UInt8.toNat.inj ?_⟩
  · rw [lowByte_sshiftRight _ (by omega), lowByte_ushiftRight, hx]
    omega
  · rw [lowByte_sshiftRight _ (by omega), lowByte_ushiftRight, hx]
    omega
  · rw [toNat_lowByte, hx]
    omega

end Base64
