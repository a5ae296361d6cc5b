/-
# Inputs in base64

The judge hands a program its input as one argument in base64 (`central_runner.go`).  The
wrappers of Rust, C and C++ decode it by hand (`pkg/wrappers/*.tpl`): Rust and C++ collect
the digits in a 32-bit accumulator that overflows on long inputs, C decodes four digits at
a time into a buffer of the expected size.

* `base64_decoders` : each of them returns the bytes that were encoded.
-/
import JudgePlatform.Library.Base64

namespace Judge

open Base64

/-! ## The Rust wrapper -/

namespace RustWrapper

/-- The table of digits; 255 for a byte that is none. -/
def lookup (b : UInt8) : UInt8 := if b ∈ alphabet then (alphabet.idxOf b).toUInt8 else 255

/-- The loop of `base64_decode`. -/
def decodeLoop : List UInt8 → BitVec 32 → ℕ → List UInt8 → Except String (List UInt8)
  | [], _, _, out => .ok out
  | b :: input, buf, bits, out =>
    if b = pad ∨ b = 10 ∨ b = 13 then decodeLoop input buf bits out
    else if lookup b = 255 then
      .error ("invalid base64 character: ".push (Char.ofNat b.toNat))
    else
      let buf := buf <<< 6 ||| BitVec.ofNat 32 (lookup b).toNat
      let bits := bits + 6
      if 8 ≤ bits then decodeLoop input buf (bits - 8) (out ++ [lowByte (buf >>> (bits - 8))])
      else decodeLoop input buf bits out

def base64Decode (input : List UInt8) : Except String (List UInt8) := decodeLoop input 0 0 []

end RustWrapper

/-! ## The C++ wrapper -/

namespace CppWrapper

/-- The table of digits; -1 for a byte that is none. -/
def table (b : UInt8) : ℤ := if b ∈ alphabet then alphabet.idxOf b else -1

/-- The loop of `base64_decode`; an `int` has 32 bits and wraps around, and its right shift
keeps the sign. -/
def decodeLoop : List UInt8 → BitVec 32 → ℤ → List UInt8 → List UInt8
  | [], _, _, out => out
  | c :: input, val, valb, out =>
    if table c = -1 then out
    else
      let val := val <<< 6 + BitVec.ofInt 32 (table c)
      let valb := valb + 6
      if 0 ≤ valb then
        decodeLoop input val (valb - 8) (out ++ [lowByte (val.sshiftRight valb.toNat)])
      else decodeLoop input val valb out

def base64Decode (input : List UInt8) : List UInt8 := decodeLoop input 0 (-8) []

end CppWrapper

/-! ## The C wrapper -/

namespace CWrapper

/-- The table of digits: its initializer stops at 128, and the rest of a static array is
zero. -/
def table (b : UInt8) : ℤ :=
  if b ∈ alphabet then alphabet.idxOf b else if b.toNat < 128 then -1 else 0

/-- A buffer from `malloc`: bytes that have been written, and bytes that have not. -/
abbrev Buffer := List (Option UInt8)

/-- `out[j] = b`, unless that is behind the buffer. -/
def write (out : Buffer) (j : ℕ) (b : UInt8) : Option Buffer :=
  if j < out.length then some (out.set j (some b)) else none

/-- The value of the third or fourth digit. -/
def padded (b : UInt8) : BitVec 32 := if b = pad then 0 else BitVec.ofInt 32 (table b)

/-- The loop of `base64_decode` over the input from `i` on, four digits at a time. -/
def decodeLoop : List UInt8 → ℕ → Buffer → Option Buffer
  | c₀ :: c₁ :: c₂ :: c₃ :: input, j, out => do
    let v := BitVec.ofInt 32 (table c₀) <<< 18 ||| BitVec.ofInt 32 (table c₁) <<< 12 |||
      padded c₂ <<< 6 ||| padded c₃
    let out ← write out j (lowByte (v.sshiftRight 16))
    let out ← if c₂ = pad then some out else write out (j + 1) (lowByte (v.sshiftRight 8))
    let out ← if c₃ = pad then some out else write out (j + 2) (lowByte v)
    decodeLoop input (j + 3) out
  | _, _, out => some out

/-- The size of the result, by the padding at the end of the input. -/
def resLen (input : List UInt8) : ℕ :=
  input.length / 4 * 3 - (if input[input.length - 1]? = some pad then 1 else 0) -
    (if input[input.length - 2]? = some pad then 1 else 0)

/-- `base64_decode`: the `out_len` bytes before the closing NUL.  There is no result for a
length that is no multiple of four, and none when a byte is read before the string or
written behind the buffer or never written. -/
def base64Decode (input : List UInt8) : Option (List UInt8) := do
  if input.length % 4 ≠ 0 ∨ input = [] then none
  let out ← decodeLoop input 0 (List.replicate (resLen input + 1) none)
  let out ← write out (resLen input) 0
  (out.take (resLen input)).mapM id

end CWrapper

/-! ## Accumulators -/

theorem RustWrapper.lookup_digit {s : ℕ} (h : s < 64) :
    (lookup (digit s)).toNat = s ∧ lookup (digit s) ≠ 255 := by
  have hlookup : (lookup (digit s)).toNat = s := by
    unfold lookup
    rw [if_pos (digit_mem h), idxOf_digit h]
    show s % 256 = s
    omega
  refine ⟨hlookup, fun h255 => ?_⟩
  rw [h255] at hlookup
  have : (255 : UInt8).toNat = 255 := rfl
  omega

theorem RustWrapper.decodeLoop_digit {s : ℕ} (h : s < 64) (input : List UInt8) (buf : BitVec 32)
    (bits : ℕ) (out : List UInt8) :
    decodeLoop (digit s :: input) buf bits out =
      if 2 ≤ bits then
        decodeLoop input (buf <<< 6 ||| BitVec.ofNat 32 s) (bits - 2)
          (out ++ [lowByte ((buf <<< 6 ||| BitVec.ofNat 32 s) >>> (bits - 2))])
      else decodeLoop input (buf <<< 6 ||| BitVec.ofNat 32 s) (bits + 6) out := by
  obtain ⟨hlookup, h255⟩ := lookup_digit h
  have hskip : ¬(digit s = pad ∨ digit s = 10 ∨ digit s = 13) := by
    rintro (hd | hd | hd)
    · exact ne_of_not_mem (by decide) h hd
    · exact ne_of_not_mem (by decide) h hd
    · exact ne_of_not_mem (by decide) h hd
  rw [decodeLoop, if_neg hskip, if_neg h255]
  simp only [hlookup]
  have hbits : bits + 6 - 8 = bits - 2 := by omega
  by_cases henough : 2 ≤ bits
  · rw [if_pos (by omega), if_pos henough, hbits]
  · rw [if_neg (by omega), if_neg henough]

theorem RustWrapper.decodeLoop_pad (input : List UInt8) (buf : BitVec 32) (bits : ℕ)
    (out : List UInt8) : decodeLoop (pad :: input) buf bits out = decodeLoop input buf bits out := by
  rw [decodeLoop, if_pos (Or.inl rfl)]

/-- Four digits are three bytes, whatever the accumulator held before. -/
theorem RustWrapper.decodeLoop_encode (bytes : List UInt8) (buf : BitVec 32) (out : List UInt8) :
    decodeLoop (encode bytes) buf 0 out = .ok (out ++ bytes) := by
  induction bytes using encode.induct generalizing buf out with
  | case1 => rw [encode, decodeLoop, List.append_nil]
  | case2 a =>
    obtain ⟨ha, -, -⟩ := eq_of_sextets a 0 0
    rw [encode, decodeLoop_digit (sextet_lt _ _), if_neg (by omega),
      decodeLoop_digit (sextet_lt _ _), if_pos (by omega), decodeLoop_pad, decodeLoop_pad,
      decodeLoop, lowByte_push_or _ (by omega) (sextet_lt _ _) (sextet_lt _ _) ha]
  | case3 a b =>
    obtain ⟨ha, hb, -⟩ := eq_of_sextets a b 0
    rw [encode, decodeLoop_digit (sextet_lt _ _), if_neg (by omega),
      decodeLoop_digit (sextet_lt _ _), if_pos (by omega),
      decodeLoop_digit (sextet_lt _ _), if_pos (by omega), decodeLoop_pad, decodeLoop,
      lowByte_push_or _ (by omega) (sextet_lt _ _) (sextet_lt _ _) ha,
      lowByte_push_or _ (by omega) (sextet_lt _ _) (sextet_lt _ _) hb, List.append_assoc]
    rfl
  | case4 a b c rest ih =>
    obtain ⟨ha, hb, hc⟩ := eq_of_sextets a b c
    rw [encode, decodeLoop_digit (sextet_lt _ _), if_neg (by omega),
      decodeLoop_digit (sextet_lt _ _), if_pos (by omega),
      decodeLoop_digit (sextet_lt _ _), if_pos (by omega),
      decodeLoop_digit (sextet_lt _ _), if_pos (by omega),
      lowByte_push_or _ (by omega) (sextet_lt _ _) (sextet_lt _ _) ha,
      lowByte_push_or _ (by omega) (sextet_lt _ _) (sextet_lt _ _) hb,
      lowByte_push_or _ (by omega) (sextet_lt _ _) (sextet_lt _ _) hc]
    rw [ih, List.append_assoc, List.append_assoc, List.append_assoc]
    rfl

theorem CppWrapper.table_digit {s : ℕ} (h : s < 64) : table (digit s) = s := by
  unfold table
  rw [if_pos (digit_mem h), idxOf_digit h]

/-- A digit that does not complete a byte. -/
theorem CppWrapper.decodeLoop_keep {s : ℕ} (h : s < 64) (input : List UInt8) (val : BitVec 32)
    {valb : ℤ} (hvalb : valb + 6 < 0) (out : List UInt8) :
    decodeLoop (digit s :: input) val valb out =
      decodeLoop input (val <<< 6 + BitVec.ofNat 32 s) (valb + 6) out := by
  rw [decodeLoop, table_digit h, if_neg (by omega), BitVec.ofInt_natCast]
  simp only
  rw [if_neg (by omega)]

/-- A digit that completes a byte and leaves `k` bits. -/
theorem CppWrapper.decodeLoop_take {s : ℕ} (h : s < 64) (input : List UInt8) (val : BitVec 32)
    {valb : ℤ} (k : ℕ) (hvalb : valb + 6 = k) (out : List UInt8) :
    decodeLoop (digit s :: input) val valb out =
      decodeLoop input (val <<< 6 + BitVec.ofNat 32 s) (k - 8)
        (out ++ [lowByte ((val <<< 6 + BitVec.ofNat 32 s).sshiftRight k)]) := by
  rw [decodeLoop, table_digit h, if_neg (by omega), BitVec.ofInt_natCast]
  simp only [hvalb, Int.toNat_natCast]
  rw [if_pos (by omega)]

theorem CppWrapper.decodeLoop_pad (input : List UInt8) (val : BitVec 32) (valb : ℤ)
    (out : List UInt8) : decodeLoop (pad :: input) val valb out = out := by
  have htable : table pad = -1 := by decide
  rw [decodeLoop, if_pos htable]

/-- Eight bits less than in the other wrapper are counted; the accumulator may be negative. -/
theorem CppWrapper.decodeLoop_encode (bytes : List UInt8) (val : BitVec 32) (out : List UInt8) :
    decodeLoop (encode bytes) val (-8) out = out ++ bytes := by
  induction bytes using encode.induct generalizing val out with
  | case1 => rw [encode, decodeLoop, List.append_nil]
  | case2 a =>
    obtain ⟨ha, -, -⟩ := eq_of_sextets a 0 0
    rw [encode, decodeLoop_keep (sextet_lt _ _) _ _ (by norm_num),
      decodeLoop_take (sextet_lt _ _) _ _ 4 (by norm_num), decodeLoop_pad,
      lowByte_push_add _ (by omega) ha]
  | case3 a b =>
    obtain ⟨ha, hb, -⟩ := eq_of_sextets a b 0
    rw [encode, decodeLoop_keep (sextet_lt _ _) _ _ (by norm_num),
      decodeLoop_take (sextet_lt _ _) _ _ 4 (by norm_num),
      decodeLoop_take (sextet_lt _ _) _ _ 2 (by norm_num), decodeLoop_pad,
      lowByte_push_add _ (by omega) ha, lowByte_push_add _ (by omega) hb, List.append_assoc]
    rfl
  | case4 a b c rest ih =>
    obtain ⟨ha, hb, hc⟩ := eq_of_sextets a b c
    rw [encode, decodeLoop_keep (sextet_lt _ _) _ _ (by norm_num),
      decodeLoop_take (sextet_lt _ _) _ _ 4 (by norm_num),
      decodeLoop_take (sextet_lt _ _) _ _ 2 (by norm_num),
      decodeLoop_take (sextet_lt _ _) _ _ 0 (by norm_num),
      lowByte_push_add _ (by omega) ha, lowByte_push_add _ (by omega) hb,
      lowByte_push_add _ (by omega) hc]
    show decodeLoop (encode rest) _ (-8) _ = _
    rw [ih, List.append_assoc, List.append_assoc, List.append_assoc]
    rfl

/-! ## A buffer -/

theorem CWrapper.write_append (pre : Buffer) (x : Option UInt8) (ys : Buffer) {j : ℕ}
    (hj : j = pre.length) (b : UInt8) : write (pre ++ x :: ys) j b = some (pre ++ some b :: ys) := by
  subst hj
  unfold write
  rw [if_pos (by simp), List.set_append_right _ _ le_rfl, Nat.sub_self, List.set_cons_zero]

theorem CWrapper.padded_digit {s : ℕ} (h : s < 64) :
    padded (digit s) = BitVec.ofNat 32 s ∧ digit s ≠ pad := by
  have hpad : digit s ≠ pad := ne_of_not_mem (by decide) h
  refine ⟨?_, hpad⟩
  unfold padded table
  rw [if_neg hpad, if_pos (digit_mem h), idxOf_digit h, BitVec.ofInt_natCast]

theorem CWrapper.table_digit {s : ℕ} (h : s < 64) :
    BitVec.ofInt 32 (table (digit s)) = BitVec.ofNat 32 s := by
  unfold table
  rw [if_pos (digit_mem h), idxOf_digit h, BitVec.ofInt_natCast]

/-- Bytes that are written one behind the other. -/
theorem CWrapper.write_next (pre : Buffer) (a : UInt8) (x : Option UInt8) (ys : Buffer) (b : UInt8) :
    write (pre ++ some a :: x :: ys) (pre.length + 1) b = some (pre ++ some a :: some b :: ys) := by
  have h := write_append (pre ++ [some a]) x ys (by simp : pre.length + 1 = _) b
  simpa using h

/-- The loop fills the buffer byte by byte and leaves the last one for the NUL. -/
theorem CWrapper.decodeLoop_encode (bytes : List UInt8) (pre : Buffer) :
    decodeLoop (encode bytes) pre.length (pre ++ List.replicate (bytes.length + 1) none) =
      some (pre ++ bytes.map some ++ [none]) := by
  have hpad : padded pad = BitVec.ofNat 32 0 := by decide
  induction bytes using encode.induct generalizing pre with
  | case1 =>
    rw [encode, decodeLoop]
    · simp
    · simp
  | case2 a =>
    obtain ⟨ha, -, -⟩ := bytes_of_quad a 0 0 rfl
    obtain ⟨-, -, h₂, h₃⟩ := sextet_group a 0 0
    have hzero : sextet (group a 0 0) 2 = 0 ∧ sextet (group a 0 0) 3 = 0 := ⟨h₂, h₃⟩
    rw [hzero.1, hzero.2] at ha
    rw [encode, decodeLoop, table_digit (sextet_lt _ _), table_digit (sextet_lt _ _), hpad]
    show (write (pre ++ none :: [none]) pre.length _).bind _ = _
    rw [ha, write_append pre none [none] rfl]
    simp [decodeLoop]
  | case3 a b =>
    obtain ⟨ha, hb, -⟩ := bytes_of_quad a b 0 rfl
    obtain ⟨-, -, -, h₃⟩ := sextet_group a b 0
    have hzero : sextet (group a b 0) 3 = 0 := h₃
    rw [hzero] at ha hb
    obtain ⟨hp₂, hd₂⟩ := padded_digit (sextet_lt (group a b 0) 2)
    rw [encode, decodeLoop, table_digit (sextet_lt _ _), table_digit (sextet_lt _ _), hp₂, hpad]
    show (write (pre ++ none :: none :: [none]) pre.length _).bind _ = _
    rw [ha, write_append pre none (none :: [none]) rfl]
    simp only [Option.bind_some, if_neg hd₂, hb]
    rw [write_next]
    simp [decodeLoop]
  | case4 a b c rest ih =>
    obtain ⟨ha, hb, hc⟩ := bytes_of_quad a b c rfl
    obtain ⟨hp₂, hd₂⟩ := padded_digit (sextet_lt (group a b c) 2)
    obtain ⟨hp₃, hd₃⟩ := padded_digit (sextet_lt (group a b c) 3)
    rw [encode, decodeLoop, table_digit (sextet_lt _ _), table_digit (sextet_lt _ _), hp₂, hp₃]
    show (write (pre ++ none :: none :: none :: List.replicate (rest.length + 1) none)
      pre.length _).bind _ = _
    rw [ha, write_append pre none _ rfl]
    simp only [Option.bind_some, if_neg hd₂, if_neg hd₃, hb, hc]
    rw [write_next]
    simp only [Option.bind_eq_bind, Option.bind_some]
    have hthird := write_next (pre ++ [some a]) b none (List.replicate (rest.length + 1) none) c
    simp only [List.append_assoc, List.singleton_append, List.length_append,
      List.length_singleton] at hthird
    rw [hthird]
    have hrest := ih (pre ++ [some a, some b, some c])
    simp only [List.append_assoc, List.length_append, List.length_cons, List.length_nil,
      List.cons_append, List.nil_append] at hrest
    simp [hrest]

/-- Four digits in front of a longer text, whose end is the same. -/
theorem CWrapper.resLen_cons (d₀ d₁ d₂ d₃ : UInt8) {input : List UInt8} (h : 4 ≤ input.length) :
    resLen (d₀ :: d₁ :: d₂ :: d₃ :: input) = resLen input + 3 := by
  have hlast : ∀ k, k ≤ 4 → (d₀ :: d₁ :: d₂ :: d₃ :: input)[
      (d₀ :: d₁ :: d₂ :: d₃ :: input).length - k]? = input[input.length - k]? := by
    intro k hk
    have hindex : (d₀ :: d₁ :: d₂ :: d₃ :: input).length - k = input.length - k + 4 := by
      simp only [List.length_cons]
      omega
    rw [hindex]
    rfl
  have hdiv : (d₀ :: d₁ :: d₂ :: d₃ :: input).length / 4 = input.length / 4 + 1 :=
    Nat.add_div_right input.length four_pos
  have hpos : 1 ≤ input.length / 4 := by omega
  unfold resLen
  simp only [hlast 1 (by omega), hlast 2 (by omega), hdiv]
  split_ifs <;> omega

/-- The length of an encoding and the size that its padding leaves. -/
theorem CWrapper.resLen_encode {bytes : List UInt8} (h : bytes ≠ []) :
    (encode bytes).length % 4 = 0 ∧ 4 ≤ (encode bytes).length ∧
      resLen (encode bytes) = bytes.length := by
  induction bytes using encode.induct with
  | case1 => exact absurd rfl h
  | case2 a =>
    have hd := ne_of_not_mem (b := pad) (by decide) (sextet_lt (group a 0 0) 0)
    simp [encode, resLen]
  | case3 a b =>
    obtain ⟨-, hd⟩ := padded_digit (sextet_lt (group a b 0) 2)
    simp [encode, resLen, hd]
  | case4 a b c rest ih =>
    by_cases hrest : rest = []
    · subst hrest
      obtain ⟨-, hd₂⟩ := padded_digit (sextet_lt (group a b c) 2)
      obtain ⟨-, hd₃⟩ := padded_digit (sextet_lt (group a b c) 3)
      simp [encode, resLen, hd₂, hd₃]
    · obtain ⟨hmod, hlong, hlen⟩ := ih hrest
      refine ⟨?_, ?_, ?_⟩
      · simp only [encode, List.length_cons]
        omega
      · simp only [encode, List.length_cons]
        omega
      · rw [encode, resLen_cons _ _ _ _ hlong, hlen]
        rfl

/-- The bytes come back, whatever is in them. -/
theorem CWrapper.base64Decode_encode {bytes : List UInt8} (h : bytes ≠ []) :
    base64Decode (encode bytes) = some bytes := by
  obtain ⟨hmod, hlong, hlen⟩ := resLen_encode h
  have hne : encode bytes ≠ [] := by
    intro hnil
    rw [hnil] at hlong
    exact absurd hlong (by decide)
  have hloop := decodeLoop_encode bytes []
  rw [List.length_nil, List.nil_append, List.nil_append] at hloop
  have hwrite : write (bytes.map some ++ [none]) bytes.length 0 =
      some (bytes.map some ++ [some 0]) :=
    write_append (bytes.map some) none [] (by simp) 0
  have hread : (bytes.map some).mapM id = some bytes := by
    rw [List.mapM_map]
    exact (List.mapM_pure (m := Option) (f := id)).trans (by simp)
  unfold base64Decode
  rw [if_neg (by simp [hmod, hne]), hlen, hloop]
  simp only [Option.bind_eq_bind, Option.bind_some, hwrite]
  rw [List.take_left' (by simp), hread]

/-- **The input arrives**: for all bytes the decoders of the wrappers return what was
encoded, in C unless there are none. -/
theorem base64_decoders (bytes : List UInt8) :
    RustWrapper.base64Decode (encode bytes) = .ok bytes ∧
      CppWrapper.base64Decode (encode bytes) = bytes ∧
      (bytes ≠ [] → CWrapper.base64Decode (encode bytes) = some bytes) := by
  refine ⟨?_, ?_, CWrapper.base64Decode_encode⟩
  · exact RustWrapper.decodeLoop_encode bytes 0 []
  · exact CppWrapper.decodeLoop_encode bytes 0 []

/-- The two bytes of `Hi`, which are encoded with one sign of padding. -/
theorem base64_decoders_two :
    RustWrapper.base64Decode (encode [72, 105]) = .ok [72, 105] ∧
      CppWrapper.base64Decode (encode [72, 105]) = [72, 105] ∧
      CWrapper.base64Decode (encode [72, 105]) = some [72, 105] := by
  obtain ⟨hrust, hcpp, hc⟩ := base64_decoders [72, 105]
  exact ⟨hrust, hcpp, hc (by decide)⟩

end Judge
