/-
# Numbers in JSON texts

What a number literal says, as a rational number and as a double, and how a
double is printed: the shortest decimal that is read back as the same double,
in positional notation for sizes from `1e-6` up to `1e21` and with an exponent
elsewhere.  These are the rules of Go's `encoding/json` and of JavaScript's
`JSON.stringify` alike, the negative zero apart.

`parseFloat_formatFloat` is the round trip: every finite double survives being
printed and read.
-/
import JudgePlatform.Library.Json
import JudgePlatform.Library.Binary64

namespace JsonNumber

/-! ## Reading -/

/-- The number that the digits after an exponent mark stand for. -/
def readExponent : List Char → ℤ
  | [] => 0
  | _ :: '-' :: ds => -(Nat.ofDigitChars 10 ds 0 : ℤ)
  | _ :: '+' :: ds => Nat.ofDigitChars 10 ds 0
  | _ :: ds => Nat.ofDigitChars 10 ds 0

/-- The number of an integer part and what follows it. -/
def readFraction (int : List Char) : List Char → ℚ
  | '.' :: cs =>
    Nat.ofDigitChars 10 (int ++ cs.takeWhile Char.isDigit) 0 *
      10 ^ (readExponent (cs.dropWhile Char.isDigit) - (cs.takeWhile Char.isDigit).length)
  | cs => Nat.ofDigitChars 10 int 0 * 10 ^ readExponent cs

def readUnsigned (cs : List Char) : ℚ :=
  readFraction (cs.takeWhile Char.isDigit) (cs.dropWhile Char.isDigit)

/-- The rational number that a literal stands for. -/
def readNumber : List Char → ℚ
  | '-' :: cs => -readUnsigned cs
  | cs => readUnsigned cs

/-- `strconv.ParseFloat` on a number literal, without a value where it reports a
number out of range. -/
def parseFloat (n : NumberLit) : Option Binary64 :=
  match Binary64.ofRat (readNumber n.text) with
  | .inf _ => none
  | x => if n.text.head? = some '-' ∧ x.toRat = some 0 then some .negZero else some x

/-! ## Printing -/

/-- The decimal without trailing zeros that is `m * 10 ^ e`; the fuel bounds the
number of zeros removed. -/
def trimZeros : ℕ → ℕ → ℤ → ℕ × ℤ
  | 0, m, e => (m, e)
  | fuel + 1, m, e => if m % 10 = 0 then trimZeros fuel (m / 10) (e + 1) else (m, e)

/-- Whether the decimal `m * 10 ^ e` is read as the double `q`. -/
def readsAs (q : ℚ) (m : ℕ) (e : ℤ) : Bool :=
  0 < m ∧ Binary64.nearest (m * 10 ^ e) = q

/-- The better of the two decimals with last place `10 ^ e` around `q`, if one of
them is read as `q`. -/
def candidate (q : ℚ) (e : ℤ) : Option (ℕ × ℤ) :=
  let lo := ⌊q / 10 ^ e⌋.toNat
  let rest := q / 10 ^ e - lo
  let up : Prop := 1 / 2 < rest ∨ rest = 1 / 2 ∧ lo % 2 = 1
  if readsAs q lo e ∧ ¬(readsAs q (lo + 1) e ∧ up) then some (lo, e)
  else if readsAs q (lo + 1) e then some (lo + 1, e)
  else none

/-- Decimal places that are enough for the exact value of every double. -/
def decimalPlaces : ℕ := 1074

/-- The shortest decimal read as `q`, looking from `e` downwards.  Seventeen
digits are enough for a double, but nothing depends on it: the exact value of
the double stands behind them. -/
def shortestFrom (q : ℚ) : ℕ → ℤ → ℕ × ℤ
  | 0, _ => (⌊q * 10 ^ decimalPlaces⌋.toNat, -decimalPlaces)
  | fuel + 1, e =>
    match candidate q e with
    | some d => d
    | none => shortestFrom q fuel (e - 1)

/-- The digits and the exponent of the shortest decimal read as a positive double. -/
def shortest (q : ℚ) : ℕ × ℤ :=
  let d := shortestFrom q 17 (Int.log 10 q)
  trimZeros 400 d.1 d.2

/-- A literal from an integer part, a fraction and an exponent. -/
def literal (int frac expo : List Char) : List Char :=
  int ++ ((if frac = [] then [] else '.' :: frac) ++ expo)

/-- `m * 10 ^ e` in positional notation. -/
def layoutFixed (m : ℕ) (e : ℤ) : List Char :=
  let body := Nat.toDigits 10 m ++ List.replicate e.toNat '0'
  let padded := List.replicate ((-e).toNat + 1 - body.length) '0' ++ body
  literal (padded.take (padded.length - (-e).toNat)) (padded.drop (padded.length - (-e).toNat)) []

/-- `m * 10 ^ e` with an exponent. -/
def layoutExponent (m : ℕ) (e : ℤ) : List Char :=
  let ds := Nat.toDigits 10 m
  let k := e + (ds.length - 1 : ℕ)
  literal (ds.take 1) (ds.drop 1) ('e' :: if k < 0 then Text.intDigits k else '+' :: Text.intDigits k)

/-- The text of a positive double. -/
def formatPositive (q : ℚ) : List Char :=
  let d := shortest q
  if q < Binary64.nearest (1 / 10 ^ 6) ∨ 10 ^ 21 ≤ q then layoutExponent d.1 d.2
  else layoutFixed d.1 d.2

/-- The text of a finite double as `encoding/json` writes it. -/
def formatFinite (q : ℚ) : List Char :=
  if q = 0 then ['0'] else if q < 0 then '-' :: formatPositive (-q) else formatPositive q

/-! ## The decimal that is printed -/

theorem trimZeros_value (fuel m : ℕ) (e : ℤ) :
    ((trimZeros fuel m e).1 : ℚ) * 10 ^ (trimZeros fuel m e).2 = m * 10 ^ e := by
  induction fuel generalizing m e with
  | zero => rfl
  | succ fuel ih =>
    unfold trimZeros
    split_ifs with h
    · have hm : ((m / 10 : ℕ) : ℚ) * 10 = m := by
        exact_mod_cast Nat.div_mul_cancel (Nat.dvd_of_mod_eq_zero h)
      rw [ih, zpow_add₀ (by norm_num), zpow_one, ← hm]
      ring
    · rfl

theorem trimZeros_pos {m : ℕ} (hm : 0 < m) (fuel : ℕ) (e : ℤ) : 0 < (trimZeros fuel m e).1 := by
  induction fuel generalizing m e with
  | zero => exact hm
  | succ fuel ih =>
    unfold trimZeros
    split_ifs with h
    · exact ih (by omega) _
    · exact hm

theorem readsAs_candidate {q : ℚ} {e : ℤ} {d : ℕ × ℤ} (h : candidate q e = some d) :
    readsAs q d.1 d.2 = true := by
  unfold candidate at h
  dsimp only at h
  split_ifs at h with hlo hhi
  · obtain rfl := Option.some.inj h
    exact hlo.1
  · obtain rfl := Option.some.inj h
    exact hhi

/-- A dyadic number is a whole multiple of a power of ten. -/
theorem exact_decimal {m e : ℤ} {n : ℕ} (he : -(n : ℤ) ≤ e) (hq : 0 < (m : ℚ) * 2 ^ e) :
    0 < ⌊(m : ℚ) * 2 ^ e * 10 ^ n⌋.toNat ∧
      (⌊(m : ℚ) * 2 ^ e * 10 ^ n⌋.toNat : ℚ) * 10 ^ (-(n : ℤ)) = m * 2 ^ e := by
  obtain ⟨k, hk⟩ := Int.eq_ofNat_of_zero_le (by omega : 0 ≤ e + n)
  have h2 : (2 : ℚ) ^ e * 2 ^ n = 2 ^ k := by
    rw [← zpow_natCast (2 : ℚ) n, ← zpow_add₀ (by norm_num), hk]
    exact zpow_natCast 2 k
  have hint : (m : ℚ) * 2 ^ e * 10 ^ n = ((m * 2 ^ k * 5 ^ n : ℤ) : ℚ) := by
    have h10 : (10 : ℚ) ^ n = 2 ^ n * 5 ^ n := by rw [← mul_pow]; norm_num
    push_cast
    rw [h10, ← h2]
    ring
  have hpos : 0 < m * 2 ^ k * 5 ^ n := by
    have : (0 : ℚ) < ((m * 2 ^ k * 5 ^ n : ℤ) : ℚ) := by
      rw [← hint]
      positivity
    exact_mod_cast this
  have hcast : ((m * 2 ^ k * 5 ^ n : ℤ).toNat : ℚ) = ((m * 2 ^ k * 5 ^ n : ℤ) : ℚ) := by
    exact_mod_cast Int.toNat_of_nonneg hpos.le
  have h10 : (10 : ℚ) ^ n * 10 ^ (-(n : ℤ)) = 1 := by
    rw [← zpow_natCast, ← zpow_add₀ (by norm_num), add_neg_cancel, zpow_zero]
  rw [hint, Int.floor_intCast]
  refine ⟨by omega, ?_⟩
  rw [hcast, ← hint, mul_assoc, h10, mul_one]

theorem readsAs_iff {q : ℚ} {m : ℕ} {e : ℤ} :
    readsAs q m e = true ↔ 0 < m ∧ Binary64.nearest (m * 10 ^ e) = q := by
  unfold readsAs
  rw [decide_eq_true_eq]

theorem readsAs_shortestFrom {q : ℚ} (h : Binary64.Representable q) (hq : 0 < q) (fuel : ℕ)
    (e : ℤ) : readsAs q (shortestFrom q fuel e).1 (shortestFrom q fuel e).2 = true := by
  induction fuel generalizing e with
  | zero =>
    obtain ⟨m, k, -, hk, -, rfl⟩ := id h
    obtain ⟨hpos, hval⟩ := exact_decimal (n := decimalPlaces) hk hq
    refine readsAs_iff.mpr ⟨hpos, ?_⟩
    unfold shortestFrom
    rw [hval]
    exact Binary64.nearest_of_representable h
  | succ fuel ih =>
    unfold shortestFrom
    cases hc : candidate q e with
    | some d => exact readsAs_candidate hc
    | none => exact ih (e - 1)

/-- **The shortest decimal is read as the double it was found for.** -/
theorem readsAs_shortest {q : ℚ} (h : Binary64.Representable q) (hq : 0 < q) :
    readsAs q (shortest q).1 (shortest q).2 = true := by
  obtain ⟨hpos, hval⟩ := readsAs_iff.mp (readsAs_shortestFrom h hq 17 (Int.log 10 q))
  refine readsAs_iff.mpr ⟨trimZeros_pos hpos _ _, ?_⟩
  unfold shortest
  rw [trimZeros_value, hval]

/-! ## Literals -/

/-- The text does not go on with a digit. -/
def DigitsEnd (rest : List Char) : Prop := ∀ c cs, rest = c :: cs → c.isDigit = false

theorem span_digits {ds rest : List Char} (hds : ∀ c ∈ ds, c.isDigit = true)
    (hrest : DigitsEnd rest) :
    (ds ++ rest).takeWhile Char.isDigit = ds ∧ (ds ++ rest).dropWhile Char.isDigit = rest := by
  rw [List.takeWhile_append_of_pos hds, List.dropWhile_append_of_pos hds]
  cases rest with
  | nil => exact ⟨List.append_nil ds, rfl⟩
  | cons c cs =>
    have hc := hrest c cs rfl
    rw [List.takeWhile_cons_of_neg (by simp [hc]), List.dropWhile_cons_of_neg (by simp [hc])]
    exact ⟨List.append_nil ds, rfl⟩

/-- An exponent begins with a letter. -/
theorem digitsEnd_of_isExponent {expo : List Char} (h : Json.isExponent expo = true) :
    DigitsEnd expo := by
  rintro c cs rfl
  unfold Json.isExponent at h
  rw [Bool.and_eq_true, decide_eq_true_eq] at h
  rcases h.1 with rfl | rfl <;> rfl

theorem digitsEnd_tail {frac expo : List Char} (h : Json.isExponent expo = true) :
    DigitsEnd ((if frac = [] then [] else '.' :: frac) ++ expo) := by
  split_ifs
  · exact digitsEnd_of_isExponent h
  · rintro c cs hc
    obtain ⟨rfl, -⟩ := List.cons.inj hc
    rfl

/-- An integer part of a literal: digits without a needless leading zero. -/
def IsInt (int : List Char) : Prop :=
  (∀ c ∈ int, c.isDigit = true) ∧ int ≠ [] ∧ (int = ['0'] ∨ int.head? ≠ some '0')

theorem isFraction_tail {frac expo : List Char} (hfrac : ∀ c ∈ frac, c.isDigit = true)
    (h : Json.isExponent expo = true) :
    Json.isFraction ((if frac = [] then [] else '.' :: frac) ++ expo) = true := by
  split_ifs with hnil
  · rw [List.nil_append]
    unfold Json.isFraction
    split
    · cases h
    · exact h
  · obtain ⟨htake, hdrop⟩ := span_digits hfrac (digitsEnd_of_isExponent h)
    rw [List.cons_append]
    show decide ((frac ++ expo).takeWhile Char.isDigit ≠ [] ∧
      Json.isExponent ((frac ++ expo).dropWhile Char.isDigit) = true) = true
    rw [htake, hdrop, decide_eq_true_eq]
    exact ⟨hnil, h⟩

theorem isUnsigned_literal {int frac expo : List Char} (hint : IsInt int)
    (hfrac : ∀ c ∈ frac, c.isDigit = true) (hexpo : Json.isExponent expo = true) :
    Json.isUnsigned (literal int frac expo) = true := by
  obtain ⟨hdigits, hne, hzero⟩ := hint
  have htail := isFraction_tail hfrac hexpo
  unfold literal
  rcases hzero with rfl | hhead
  · exact htail
  · obtain ⟨htake, hdrop⟩ := span_digits hdigits (@digitsEnd_tail frac _ hexpo)
    unfold Json.isUnsigned
    split
    · rename_i cs heq
      exfalso
      apply hhead
      cases int with
      | nil => exact absurd rfl hne
      | cons c int' => rw [(List.cons.inj heq).1]; rfl
    · rw [htake, hdrop, decide_eq_true_eq]
      exact ⟨hne, htail⟩

theorem readUnsigned_literal {int frac expo : List Char} (hint : ∀ c ∈ int, c.isDigit = true)
    (hfrac : ∀ c ∈ frac, c.isDigit = true) (hexpo : Json.isExponent expo = true) :
    readUnsigned (literal int frac expo) =
      Nat.ofDigitChars 10 (int ++ frac) 0 * 10 ^ (readExponent expo - frac.length) := by
  obtain ⟨htake, hdrop⟩ := span_digits hint (@digitsEnd_tail frac _ hexpo)
  unfold readUnsigned literal
  rw [htake, hdrop]
  split_ifs with hnil
  · rw [List.nil_append, hnil, List.append_nil, List.length_nil, Nat.cast_zero, sub_zero]
    unfold readFraction
    split
    · cases hexpo
    · rfl
  · obtain ⟨htake', hdrop'⟩ := span_digits hfrac (digitsEnd_of_isExponent hexpo)
    rw [List.cons_append]
    show (Nat.ofDigitChars 10 (int ++ (frac ++ expo).takeWhile Char.isDigit) 0 : ℚ) *
      10 ^ (readExponent ((frac ++ expo).dropWhile Char.isDigit) -
        ((frac ++ expo).takeWhile Char.isDigit).length) = _
    rw [htake', hdrop']

/-! ## Layouts -/

theorem isDigit_replicate {n : ℕ} : ∀ c ∈ List.replicate n '0', c.isDigit = true := by
  intro c hc
  rw [List.eq_of_mem_replicate hc]
  rfl

/-- A positive number is not written with a leading zero. -/
theorem head_toDigits {m : ℕ} (hm : 0 < m) :
    ∃ c cs, Nat.toDigits 10 m = c :: cs ∧ c ≠ '0' := by
  induction m using Nat.strong_induction_on with
  | _ m ih =>
    by_cases hlt : m < 10
    · refine ⟨m.digitChar, [], Nat.toDigits_of_lt_base hlt, ?_⟩
      interval_cases m <;> decide
    · obtain ⟨c, cs, heq, hc⟩ := ih (m / 10) (by omega) (by omega)
      refine ⟨c, cs ++ [(m % 10).digitChar], ?_, hc⟩
      rw [Nat.toDigits_of_base_le (by norm_num) (by omega), heq, List.cons_append]

/-- The digits of `m * 10 ^ e` with a zero before the point if there is no other digit. -/
def padded (m : ℕ) (e : ℤ) : List Char :=
  let body := Nat.toDigits 10 m ++ List.replicate e.toNat '0'
  List.replicate ((-e).toNat + 1 - body.length) '0' ++ body

theorem layoutFixed_eq (m : ℕ) (e : ℤ) :
    layoutFixed m e = literal ((padded m e).take ((padded m e).length - (-e).toNat))
      ((padded m e).drop ((padded m e).length - (-e).toNat)) [] := rfl

theorem isDigit_padded {m : ℕ} {e : ℤ} : ∀ c ∈ padded m e, c.isDigit = true := by
  intro c hc
  unfold padded at hc
  rcases List.mem_append.mp hc with hc | hc
  · exact isDigit_replicate c hc
  · rcases List.mem_append.mp hc with hc | hc
    · exact Text.isDigit_of_mem_toDigits hc
    · exact isDigit_replicate c hc

theorem ofDigitChars_padded (m : ℕ) (e : ℤ) :
    Nat.ofDigitChars 10 (padded m e) 0 = m * 10 ^ e.toNat := by
  unfold padded
  rw [Nat.ofDigitChars_append, Nat.ofDigitChars_replicate_zero, mul_zero,
    Nat.ofDigitChars_append, Nat.ofDigitChars_replicate_zero, Nat.ofDigitChars_ten_toDigits,
    mul_comm]

theorem length_padded (m : ℕ) (e : ℤ) : (-e).toNat < (padded m e).length := by
  unfold padded
  rw [List.length_append, List.length_replicate]
  omega

theorem isInt_padded {m : ℕ} (hm : 0 < m) (e : ℤ) :
    IsInt ((padded m e).take ((padded m e).length - (-e).toNat)) := by
  have hlen := length_padded m e
  refine ⟨fun c hc => isDigit_padded c (List.mem_of_mem_take hc), ?_, ?_⟩
  · rw [Ne, List.take_eq_nil_iff]
    rintro (h | h)
    · omega
    · rw [h, List.length_nil] at hlen
      omega
  · obtain ⟨c, cs, heq, hc⟩ := head_toDigits hm
    set body := Nat.toDigits 10 m ++ List.replicate e.toNat '0' with hbody
    have hpad : padded m e = List.replicate ((-e).toNat + 1 - body.length) '0' ++ body := rfl
    by_cases hlong : body.length < (-e).toNat + 1
    · -- one zero before the point
      left
      have hone : (padded m e).length - (-e).toNat = 1 := by
        rw [hpad, List.length_append, List.length_replicate]
        omega
      obtain ⟨n, hn⟩ : ∃ n, (-e).toNat + 1 - body.length = n + 1 := ⟨(-e).toNat - body.length, by omega⟩
      rw [hone, hpad, hn, List.replicate_succ]
      rfl
    · right
      have hzero : (-e).toNat + 1 - body.length = 0 := by omega
      have hhead : padded m e = c :: (cs ++ List.replicate e.toNat '0') := by
        rw [hpad, hzero, List.replicate_zero, List.nil_append, hbody, heq, List.cons_append]
      obtain ⟨n, hn⟩ : ∃ n, (padded m e).length - (-e).toNat = n + 1 :=
        ⟨(padded m e).length - (-e).toNat - 1, by omega⟩
      rw [hn, hhead, List.take_succ_cons, List.head?_cons]
      exact fun h => hc (Option.some.inj h)

/-- The exponent written behind the mark. -/
def exponentText (k : ℤ) : List Char :=
  'e' :: if k < 0 then Text.intDigits k else '+' :: Text.intDigits k

theorem isDigits_toDigits (n : ℕ) : Json.isDigits (Nat.toDigits 10 n) = true := by
  unfold Json.isDigits
  rw [decide_eq_true_eq]
  exact ⟨Nat.toDigits_ne_nil, List.all_eq_true.mpr fun c hc => Text.isDigit_of_mem_toDigits hc⟩

theorem exponentText_eq (k : ℤ) :
    exponentText k = 'e' :: (if k < 0 then '-' else '+') :: Nat.toDigits 10 k.natAbs := by
  unfold exponentText Text.intDigits
  split_ifs <;> rfl

theorem isExponent_exponentText (k : ℤ) : Json.isExponent (exponentText k) = true := by
  rw [exponentText_eq]
  split_ifs
  · show (decide ('e' = 'e' ∨ 'e' = 'E') && Json.isDigits (Nat.toDigits 10 k.natAbs)) = true
    rw [isDigits_toDigits]
    rfl
  · show (decide ('e' = 'e' ∨ 'e' = 'E') && Json.isDigits (Nat.toDigits 10 k.natAbs)) = true
    rw [isDigits_toDigits]
    rfl

theorem readExponent_exponentText (k : ℤ) : readExponent (exponentText k) = k := by
  rw [exponentText_eq]
  split_ifs with hk
  · show -((Nat.ofDigitChars 10 (Nat.toDigits 10 k.natAbs) 0 : ℕ) : ℤ) = k
    rw [Nat.ofDigitChars_ten_toDigits]
    omega
  · show ((Nat.ofDigitChars 10 (Nat.toDigits 10 k.natAbs) 0 : ℕ) : ℤ) = k
    rw [Nat.ofDigitChars_ten_toDigits]
    omega

theorem isUnsigned_layoutFixed {m : ℕ} (hm : 0 < m) (e : ℤ) :
    Json.isUnsigned (layoutFixed m e) = true :=
  isUnsigned_literal (isInt_padded hm e)
    (fun c hc => isDigit_padded c (List.mem_of_mem_drop hc)) rfl

theorem readUnsigned_layoutFixed {m : ℕ} (hm : 0 < m) (e : ℤ) :
    readUnsigned (layoutFixed m e) = m * 10 ^ e := by
  have hlen := length_padded m e
  rw [layoutFixed_eq, readUnsigned_literal (isInt_padded hm e).1
    (fun c hc => isDigit_padded c (List.mem_of_mem_drop hc)) rfl, List.take_append_drop,
    ofDigitChars_padded, List.length_drop]
  have hexp : (readExponent [] : ℤ) -
      (((padded m e).length - ((padded m e).length - (-e).toNat) : ℕ) : ℤ) = -(-e).toNat := by
    show (0 : ℤ) - _ = _
    omega
  have hsum : e = e.toNat + -((-e).toNat : ℤ) := by omega
  rw [hexp]
  conv_rhs => rw [hsum, zpow_add₀ (by norm_num), zpow_natCast]
  push_cast
  ring

theorem isInt_take_one {m : ℕ} (hm : 0 < m) : IsInt ((Nat.toDigits 10 m).take 1) := by
  obtain ⟨c, cs, heq, hc⟩ := head_toDigits hm
  rw [heq]
  refine ⟨fun d hd => ?_, List.cons_ne_nil _ _, Or.inr fun h => hc (Option.some.inj h)⟩
  rw [List.mem_singleton.mp hd]
  exact Text.isDigit_of_mem_toDigits (heq ▸ List.mem_cons_self)

theorem isUnsigned_layoutExponent {m : ℕ} (hm : 0 < m) (e : ℤ) :
    Json.isUnsigned (layoutExponent m e) = true :=
  isUnsigned_literal (isInt_take_one hm)
    (fun _ hc => Text.isDigit_of_mem_toDigits (List.mem_of_mem_drop hc))
    (isExponent_exponentText _)

theorem readUnsigned_layoutExponent {m : ℕ} (hm : 0 < m) (e : ℤ) :
    readUnsigned (layoutExponent m e) = m * 10 ^ e := by
  have hlen : 0 < (Nat.toDigits 10 m).length := Nat.length_toDigits_pos
  have heq : layoutExponent m e = literal ((Nat.toDigits 10 m).take 1) ((Nat.toDigits 10 m).drop 1)
      (exponentText (e + ((Nat.toDigits 10 m).length - 1 : ℕ))) := rfl
  rw [heq, readUnsigned_literal (isInt_take_one hm).1
    (fun _ hc => Text.isDigit_of_mem_toDigits (List.mem_of_mem_drop hc))
    (isExponent_exponentText _), List.take_append_drop, Nat.ofDigitChars_ten_toDigits,
    readExponent_exponentText, List.length_drop]
  congr 2
  omega

/-! ## Doubles -/

theorem isUnsigned_formatPositive {q : ℚ} (h : Binary64.Representable q) (hq : 0 < q) :
    Json.isUnsigned (formatPositive q) = true := by
  have hpos := (readsAs_iff.mp (readsAs_shortest h hq)).1
  unfold formatPositive
  split_ifs
  · exact isUnsigned_layoutExponent hpos _
  · exact isUnsigned_layoutFixed hpos _

theorem nearest_formatPositive {q : ℚ} (h : Binary64.Representable q) (hq : 0 < q) :
    Binary64.nearest (readUnsigned (formatPositive q)) = q := by
  obtain ⟨hpos, hval⟩ := readsAs_iff.mp (readsAs_shortest h hq)
  unfold formatPositive
  split_ifs
  · rw [readUnsigned_layoutExponent hpos, hval]
  · rw [readUnsigned_layoutFixed hpos, hval]

/-- An unsigned literal does not begin with a minus sign. -/
theorem isNumber_of_isUnsigned {cs : List Char} (h : Json.isUnsigned cs = true) :
    Json.isNumber cs = true ∧ readNumber cs = readUnsigned cs ∧ cs.head? ≠ some '-' := by
  cases cs with
  | nil => cases h
  | cons c cs =>
    have hc : c ≠ '-' := by
      rintro rfl
      cases h
    refine ⟨?_, ?_, fun heq => hc (Option.some.inj heq)⟩
    · unfold Json.isNumber
      split
      · exact absurd (List.cons.inj ‹_›).1 hc
      · exact h
    · unfold readNumber
      split
      · exact absurd (List.cons.inj ‹_›).1 hc
      · rfl

theorem isNumber_formatFinite {q : ℚ} (h : Binary64.Representable q) :
    Json.isNumber (formatFinite q) = true := by
  unfold formatFinite
  split_ifs with h0 hneg
  · rfl
  · exact isUnsigned_formatPositive (h.neg) (neg_pos.mpr hneg)
  · exact (isNumber_of_isUnsigned (isUnsigned_formatPositive h
      (lt_of_le_of_ne (not_lt.mp hneg) (Ne.symm h0)))).1

/-- The literal of a finite double; there is none for an infinity or a NaN. -/
def formatFloat : Binary64 → Option NumberLit
  | .finite q h => some ⟨formatFinite q, isNumber_formatFinite h⟩
  | .negZero => some ⟨['-', '0'], rfl⟩
  | .inf _ => none
  | .nan => none

/-- A finite number is read as itself. -/
theorem nearest_formatFinite {q : ℚ} (h : Binary64.Representable q) :
    Binary64.nearest (readNumber (formatFinite q)) = q ∧
      ((formatFinite q).head? = some '-' → q < 0) := by
  unfold formatFinite
  split_ifs with h0 hneg
  · rw [h0, show readNumber ['0'] = 0 from by decide +kernel]
    exact ⟨Binary64.nearest_zero, fun h => absurd (Option.some.inj h) (by decide)⟩
  · refine ⟨?_, fun _ => hneg⟩
    show Binary64.nearest (-readUnsigned (formatPositive (-q))) = q
    rw [Binary64.nearest_neg, nearest_formatPositive h.neg (neg_pos.mpr hneg), neg_neg]
  · have hq : 0 < q := lt_of_le_of_ne (not_lt.mp hneg) (Ne.symm h0)
    obtain ⟨-, hread, hhead⟩ := isNumber_of_isUnsigned (isUnsigned_formatPositive h hq)
    rw [hread]
    exact ⟨nearest_formatPositive h hq, fun h => absurd h hhead⟩

theorem ofRat_readNumber {q : ℚ} (h : Binary64.Representable q) :
    Binary64.ofRat (readNumber (formatFinite q)) = .finite q h := by
  have hq := (nearest_formatFinite h).1
  unfold Binary64.ofRat
  rw [dif_pos (by rw [hq]; exact h.abs_lt)]
  congr 1

/-- **A finite double survives being printed and read.** -/
theorem parseFloat_formatFloat {x : Binary64} {n : NumberLit} (h : formatFloat x = some n) :
    parseFloat n = some x := by
  cases x with
  | finite q hq =>
    obtain rfl := Option.some.inj h
    unfold parseFloat
    rw [ofRat_readNumber hq]
    dsimp only
    rw [if_neg]
    rintro ⟨hhead, hzero⟩
    have hlt := (nearest_formatFinite hq).2 hhead
    exact hlt.ne (Option.some.inj hzero)
  | negZero =>
    obtain rfl := Option.some.inj h
    unfold parseFloat
    rw [show readNumber ['-', '0'] = 0 from by decide +kernel,
      Binary64.ofRat_of_representable Binary64.representable_zero]
    rfl
  | inf s => cases h
  | nan => cases h

/-! ## Integers -/

/-- Digits without a needless leading zero. -/
theorem isInt_toDigits (n : ℕ) : IsInt (Nat.toDigits 10 n) := by
  refine ⟨fun c hc => Text.isDigit_of_mem_toDigits hc, Nat.toDigits_ne_nil, ?_⟩
  rcases Nat.eq_zero_or_pos n with rfl | hn
  · exact Or.inl rfl
  · obtain ⟨c, cs, heq, hc⟩ := head_toDigits hn
    rw [heq]
    exact Or.inr fun h => hc (Option.some.inj h)

theorem isNumber_intDigits (n : ℤ) : Json.isNumber (Text.intDigits n) = true := by
  have hdigits : Json.isUnsigned (Nat.toDigits 10 n.natAbs) = true := by
    have h := @isUnsigned_literal _ [] [] (isInt_toDigits n.natAbs)
      (fun _ h => nomatch h) rfl
    rwa [literal, if_pos rfl, List.append_nil, List.append_nil] at h
  unfold Text.intDigits
  split_ifs
  · exact hdigits
  · exact (isNumber_of_isUnsigned hdigits).1

/-- The literal of an integer. -/
def ofInt (n : ℤ) : NumberLit := ⟨Text.intDigits n, isNumber_intDigits n⟩

theorem readUnsigned_toDigits (n : ℕ) : readUnsigned (Nat.toDigits 10 n) = n := by
  have h := @readUnsigned_literal (Nat.toDigits 10 n) [] []
    (fun c hc => Text.isDigit_of_mem_toDigits hc) (fun _ h => absurd h List.not_mem_nil) rfl
  rw [literal, if_pos rfl, List.append_nil, List.append_nil] at h
  rw [h, Nat.ofDigitChars_toDigits (by decide) (by decide)]
  simp [readExponent]

theorem isUnsigned_toDigits (n : ℕ) : Json.isUnsigned (Nat.toDigits 10 n) = true := by
  have h := @isUnsigned_literal _ [] [] (isInt_toDigits n)
    (fun _ h => absurd h List.not_mem_nil) rfl
  rwa [literal, if_pos rfl, List.append_nil, List.append_nil] at h

theorem readNumber_intDigits (n : ℤ) : readNumber (Text.intDigits n) = n := by
  have hread := readUnsigned_toDigits n.natAbs
  unfold Text.intDigits
  split_ifs with hn
  · show -readUnsigned (Nat.toDigits 10 n.natAbs) = n
    rw [hread, Nat.cast_natAbs, abs_of_neg hn, Int.cast_neg, neg_neg]
  · rw [(isNumber_of_isUnsigned (isUnsigned_toDigits n.natAbs)).2.1, hread, Nat.cast_natAbs,
      abs_of_nonneg (not_lt.mp hn)]

/-- A 64-bit integer is in the range of a double. -/
theorem parseFloat_ofInt {n : ℤ} (h : |n| ≤ 2 ^ 63) : ∃ x, parseFloat (ofInt n) = some x := by
  unfold parseFloat ofInt
  dsimp only
  rw [readNumber_intDigits]
  unfold Binary64.ofRat
  rw [dif_pos (Binary64.abs_nearest_lt h)]
  dsimp only
  split_ifs
  · exact ⟨_, rfl⟩
  · exact ⟨_, rfl⟩

/-- `strconv.ParseInt(s, 10, 64)` on a number literal. -/
def parseInt64 (n : NumberLit) : Option ℤ :=
  match Text.parseInt n.text with
  | some k => if -2 ^ 63 ≤ k ∧ k < 2 ^ 63 then some k else none
  | none => none

/-- **A 64-bit integer survives being printed and read.** -/
theorem parseInt64_ofInt {n : ℤ} (h : -2 ^ 63 ≤ n ∧ n < 2 ^ 63) : parseInt64 (ofInt n) = some n := by
  unfold parseInt64 ofInt
  dsimp only
  rw [Text.parseInt_intDigits]
  dsimp only
  rw [if_pos h]

end JsonNumber
