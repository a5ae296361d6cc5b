/-
# Texts

The string functions of Go's `strings` package that a service uses on texts it
does not control: trimming, splitting into lines, prefixes, and the search for a
word in any case.  A text is a Lean `String`; a byte that is not part of valid
UTF-8 reads as U+FFFD, which none of these functions treats differently.

The lemmas at the end locate a word in a concatenation: a word that ends in a
letter which the second part does not have must lie in the first part.
-/
import Mathlib

namespace Text

/-- `unicode.IsSpace`. -/
def isSpace (c : Char) : Bool :=
  c = ' ' ∨ ('\t' ≤ c ∧ c ≤ '\r') ∨ c.toNat = 0x85 ∨ c.toNat = 0xA0 ∨ c.toNat = 0x1680 ∨
    (0x2000 ≤ c.toNat ∧ c.toNat ≤ 0x200A) ∨ c.toNat = 0x2028 ∨ c.toNat = 0x2029 ∨
    c.toNat = 0x202F ∨ c.toNat = 0x205F ∨ c.toNat = 0x3000

/-- `strings.TrimSpace`. -/
def trimSpace (s : String) : String :=
  String.ofList ((s.toList.dropWhile isSpace).reverse.dropWhile isSpace).reverse

/-- `strings.Split(s, "\n")`. -/
def lines (s : String) : List String := (s.toList.splitOn '\n').map String.ofList

/-- `strings.HasPrefix`. -/
def hasPrefix (s p : String) : Bool := p.toList.isPrefixOf s.toList

/-- `strings.HasSuffix`. -/
def hasSuffix (s p : String) : Bool := p.toList.isSuffixOf s.toList

/-- `unicode.ToLower`, as far as a search for an ASCII word can tell: besides the
ASCII letters only U+0130 and the Kelvin sign have an ASCII lower case. -/
def lowerChar (c : Char) : Char :=
  if c.toNat = 0x130 then 'i' else if c.toNat = 0x212A then 'k' else c.toLower

/-- `strings.ToLower`, see `lowerChar`. -/
def toLower (s : String) : String := String.ofList (s.toList.map lowerChar)

/-- `strings.Contains`. -/
def contains (s word : String) : Bool := decide (word.toList <:+: s.toList)

/-- `len(s)`: the length in bytes. -/
def byteLength (s : String) : ℕ := (s.toList.map Char.utf8Size).sum

@[simp] theorem toLower_append (s t : String) : toLower (s ++ t) = toLower s ++ toLower t := by
  unfold toLower
  rw [String.toList_append, List.map_append, String.ofList_append]

/-- A word that ends in a letter `t` does not have lies in `s` or nowhere. -/
theorem infix_left_of_append {α : Type*} {w s t : List α} {c : α} (hc : c ∉ t)
    (h : w ++ [c] <:+: s ++ t) : w ++ [c] <:+: s := by
  obtain ⟨pre, post, heq⟩ := h
  rcases List.append_eq_append_iff.mp heq with ⟨rest, hs, -⟩ | ⟨rest, hpre, ht⟩
  · exact ⟨pre, rest, hs.symm⟩
  · rcases List.eq_nil_or_concat rest with rfl | ⟨front, d, rfl⟩
    · rw [List.append_nil] at hpre
      exact ⟨pre, [], by rw [List.append_nil, hpre]⟩
    · -- the word's last letter would be in `t`
      rw [List.concat_eq_append, ← List.append_assoc, ← List.append_assoc] at hpre
      obtain ⟨-, hcd⟩ := List.append_inj' hpre rfl
      rw [ht, List.concat_eq_append, List.singleton_inj.mp hcd] at hc
      exact absurd (by simp) hc

/-- A text whose second part lacks the last letter of a word contains the word
only if its first part does. -/
theorem contains_append_left {s t word : String} {w : List Char} {c : Char}
    (hword : word.toList = w ++ [c]) (hc : c ∉ t.toList) (h : contains (s ++ t) word = true) :
    contains s word = true := by
  unfold contains at h ⊢
  rw [decide_eq_true_eq] at h ⊢
  rw [hword, String.toList_append] at h
  rw [hword]
  exact infix_left_of_append hc h

/-- The part before, or the part after, is enough to find a word. -/
theorem contains_append {s t word : String} (h : contains s word = true ∨ contains t word = true) :
    contains (s ++ t) word = true := by
  unfold contains at h ⊢
  simp only [decide_eq_true_eq] at h ⊢
  rw [String.toList_append]
  rcases h with h | h
  · exact h.trans (List.prefix_append _ _).isInfix
  · exact h.trans (List.suffix_append _ _).isInfix

/-! ## Decimal digits -/

/-- The decimal digits of an integer, as `strconv.Itoa` writes them. -/
def intDigits (n : ℤ) : List Char :=
  if n < 0 then '-' :: Nat.toDigits 10 n.natAbs else Nat.toDigits 10 n.natAbs

def itoa (n : ℤ) : String := String.ofList (intDigits n)

/-- The number that decimal digits stand for. -/
def parseNat (ds : List Char) : Option ℕ :=
  if ds ≠ [] ∧ ds.all Char.isDigit then some (Nat.ofDigitChars 10 ds 0) else none

/-- The integer that digits with an optional minus sign stand for. -/
def parseInt : List Char → Option ℤ
  | '-' :: ds => (parseNat ds).map fun n : ℕ => -(n : ℤ)
  | ds => (parseNat ds).map Int.ofNat

theorem isDigit_of_mem_toDigits {n : ℕ} {c : Char} (h : c ∈ Nat.toDigits 10 n) :
    c.isDigit = true := Nat.isDigit_of_mem_toDigits (by norm_num) (by norm_num) h

theorem mem_intDigits {n : ℤ} {c : Char} (h : c ∈ intDigits n) :
    c = '-' ∨ c.isDigit = true := by
  unfold intDigits at h
  split_ifs at h
  · rcases List.mem_cons.mp h with rfl | h
    · exact Or.inl rfl
    · exact Or.inr (isDigit_of_mem_toDigits h)
  · exact Or.inr (isDigit_of_mem_toDigits h)

/-- A digit is no white space. -/
theorem isSpace_of_isDigit {c : Char} (h : c.isDigit = true) : isSpace c = false := by
  unfold Char.isDigit at h
  rw [Bool.and_eq_true, decide_eq_true_eq, decide_eq_true_eq] at h
  have hlow : 48 ≤ c.toNat := UInt32.le_iff_toNat_le.mp h.1
  have hhigh : c.toNat ≤ 57 := UInt32.le_iff_toNat_le.mp h.2
  have hspace : c ≠ ' ' := by
    rintro rfl
    exact absurd hlow (by decide)
  have htab : ¬('\t' ≤ c ∧ c ≤ '\r') := by
    intro hc
    have : c.toNat ≤ 13 := UInt32.le_iff_toNat_le.mp hc.2
    omega
  unfold isSpace
  rw [decide_eq_false_iff_not]
  rintro (h | h | h)
  · exact hspace h
  · exact htab h
  · omega

theorem parseNat_toDigits (n : ℕ) : parseNat (Nat.toDigits 10 n) = some n := by
  have hall : (Nat.toDigits 10 n).all Char.isDigit = true :=
    List.all_eq_true.mpr fun c hc => isDigit_of_mem_toDigits hc
  unfold parseNat
  rw [if_pos ⟨Nat.toDigits_ne_nil, hall⟩, Nat.ofDigitChars_ten_toDigits]

/-- **Integers survive being written and read.** -/
theorem parseInt_intDigits (n : ℤ) : parseInt (intDigits n) = some n := by
  unfold intDigits
  by_cases hn : n < 0
  · rw [if_pos hn]
    show (parseNat (Nat.toDigits 10 n.natAbs)).map (fun n : ℕ => -(n : ℤ)) = some n
    rw [parseNat_toDigits, Option.map_some]
    congr 1
    omega
  · rw [if_neg hn]
    have hhead : ∀ ds, Nat.toDigits 10 n.natAbs ≠ '-' :: ds := by
      intro ds hds
      have := isDigit_of_mem_toDigits (c := '-') (hds ▸ List.mem_cons_self)
      exact absurd this (by decide)
    unfold parseInt
    split
    · exact absurd ‹_› (hhead _)
    · rw [parseNat_toDigits, Option.map_some, Int.ofNat_eq_natCast]
      congr 1
      omega

theorem lowerChar_of_isDigit {c : Char} (h : c.isDigit = true) : lowerChar c = c := by
  have hle : c.toNat ≤ 57 := by
    unfold Char.isDigit at h
    rw [Bool.and_eq_true, decide_eq_true_eq, decide_eq_true_eq] at h
    exact UInt32.le_iff_toNat_le.mp h.2
  have hupper : ¬('A' ≤ c ∧ c ≤ 'Z') := by
    intro hup
    have : 65 ≤ c.toNat := UInt32.le_iff_toNat_le.mp hup.1
    omega
  unfold lowerChar
  rw [if_neg (by omega), if_neg (by omega)]
  unfold Char.toLower
  split_ifs with hc
  · exact absurd ⟨hc.1, hc.2⟩ hupper
  · rfl

/-- Lower case changes nothing in the text of an integer. -/
theorem toLower_itoa (n : ℤ) : toLower (itoa n) = itoa n := by
  unfold toLower itoa
  rw [String.toList_ofList]
  congr 1
  conv_rhs => rw [← List.map_id (intDigits n)]
  apply List.map_congr_left
  intro c hc
  rcases mem_intDigits hc with rfl | hd
  · rfl
  · exact lowerChar_of_isDigit hd

/-- No word that ends in a letter ends in the digits at the end of a text. -/
theorem contains_append_itoa {pre word : String} {w : List Char} {c : Char} (n : ℤ)
    (hword : word.toList = w ++ [c]) (hminus : c ≠ '-') (hdigit : c.isDigit = false)
    (hpre : contains (toLower pre) word = false) :
    contains (toLower (pre ++ itoa n)) word = false := by
  rw [Bool.eq_false_iff]
  intro h
  rw [toLower_append, toLower_itoa] at h
  have hc : c ∉ (itoa n).toList := by
    unfold itoa
    rw [String.toList_ofList]
    intro hmem
    rcases mem_intDigits hmem with rfl | hd
    · exact hminus rfl
    · rw [hdigit] at hd
      cases hd
  rw [contains_append_left hword hc h] at hpre
  cases hpre

end Text
