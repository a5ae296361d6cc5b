/-
# JSON texts

The syntax of JSON: values, the parser of a text and the compact printer.  A
number keeps its literal, as a decoder decides only later whether it wants an
integer or a floating-point value; an object keeps its members in order and with
repetitions, as a decoder decides what a repeated key means.

Printers differ in the characters they escape; `Escape` is what they have in
common, and `parse_print` holds for each of them: a printed value is read back.
The parser's fuel is twice the length of the text, more than any text needs.
-/
import JudgePlatform.Library.Text

/-! ## Values -/

namespace Json

/-- The digits of a fraction or an exponent, at least one. -/
def isDigits (cs : List Char) : Bool := cs ≠ [] ∧ cs.all Char.isDigit

/-- What may follow the digits of a JSON number: an exponent. -/
def isExponent : List Char → Bool
  | [] => true
  | e :: cs =>
    (e = 'e' ∨ e = 'E') &&
      match cs with
      | '+' :: ds => isDigits ds
      | '-' :: ds => isDigits ds
      | ds => isDigits ds

/-- What may follow the integer part: a fraction and an exponent. -/
def isFraction : List Char → Bool
  | '.' :: cs =>
    cs.takeWhile Char.isDigit ≠ [] ∧ isExponent (cs.dropWhile Char.isDigit)
  | cs => isExponent cs

def isUnsigned : List Char → Bool
  | '0' :: cs => isFraction cs
  | cs => cs.takeWhile Char.isDigit ≠ [] ∧ isFraction (cs.dropWhile Char.isDigit)

/-- The literals of JSON numbers. -/
def isNumber : List Char → Bool
  | '-' :: cs => isUnsigned cs
  | cs => isUnsigned cs

end Json

/-- A number literal. -/
structure NumberLit where
  text : List Char
  valid : Json.isNumber text = true
  deriving DecidableEq

inductive Json where
  | null
  | bool (b : Bool)
  | num (n : NumberLit)
  | str (s : String)
  | arr (xs : List Json)
  | obj (members : List (String × Json))

namespace Json

/-! ## The parser -/

def isWs (c : Char) : Bool := c = ' ' ∨ c = '\t' ∨ c = '\n' ∨ c = '\r'

def skipWs (cs : List Char) : List Char := cs.dropWhile isWs

/-- The characters of number literals. -/
def isNumberChar (c : Char) : Bool :=
  c.isDigit ∨ c = '-' ∨ c = '+' ∨ c = '.' ∨ c = 'e' ∨ c = 'E'

/-- The value of a hexadecimal digit. -/
def hexDigit (c : Char) : Option ℕ :=
  if '0' ≤ c ∧ c ≤ '9' then some (c.toNat - '0'.toNat)
  else if 'a' ≤ c ∧ c ≤ 'f' then some (c.toNat - 'a'.toNat + 10)
  else if 'A' ≤ c ∧ c ≤ 'F' then some (c.toNat - 'A'.toNat + 10)
  else none

/-- The code unit of a four-digit escape. -/
def hex4 (a b c d : Char) : Option ℕ :=
  match hexDigit a, hexDigit b, hexDigit c, hexDigit d with
  | some w, some x, some y, some z => some (((w * 16 + x) * 16 + y) * 16 + z)
  | _, _, _, _ => none

/-- The character of a code unit; a lone surrogate reads as U+FFFD. -/
def unitChar (u : ℕ) : Char :=
  if 0xD800 ≤ u ∧ u < 0xE000 then Char.ofNat 0xFFFD else Char.ofNat u

/-- The character of a surrogate pair, if the two units are one. -/
def pairChar (u v : ℕ) : Option Char :=
  if 0xD800 ≤ u ∧ u < 0xDC00 ∧ 0xDC00 ≤ v ∧ v < 0xE000 then
    some (Char.ofNat ((u - 0xD800) * 0x400 + (v - 0xDC00) + 0x10000))
  else none

/-- The characters that a backslash and one letter stand for. -/
def simpleEscape (c : Char) : Option Char :=
  match c with
  | '"' => some '"'
  | '\\' => some '\\'
  | '/' => some '/'
  | 'b' => some '\x08'
  | 'f' => some '\x0c'
  | 'n' => some '\n'
  | 'r' => some '\r'
  | 't' => some '\t'
  | _ => none

/-- What a string literal is made of: characters, and the code units of `\u` escapes. -/
inductive Piece where
  | char (c : Char)
  | unit (u : ℕ)

/-- The pieces of a string literal after its opening quote. -/
def scanString : List Char → Option (List Piece × List Char)
  | [] => none
  | '"' :: rest => some ([], rest)
  | '\\' :: 'u' :: a :: b :: c :: d :: rest =>
    match hex4 a b c d with
    | some u => (scanString rest).map fun (ps, r) => (.unit u :: ps, r)
    | none => none
  | '\\' :: e :: rest =>
    match simpleEscape e with
    | some x => (scanString rest).map fun (ps, r) => (.char x :: ps, r)
    | none => none
  | x :: rest =>
    if x = '\\' ∨ x.toNat < 0x20 then none
    else (scanString rest).map fun (ps, r) => (.char x :: ps, r)

/-- The characters that pieces make; `pending` is a code unit that may be the
first half of a surrogate pair. -/
def assemble : Option ℕ → List Piece → List Char
  | none, [] => []
  | some u, [] => [unitChar u]
  | none, .char c :: ps => c :: assemble none ps
  | some u, .char c :: ps => unitChar u :: c :: assemble none ps
  | none, .unit v :: ps => assemble (some v) ps
  | some u, .unit v :: ps =>
    match pairChar u v with
    | some x => x :: assemble none ps
    | none => unitChar u :: assemble (some v) ps

/-- The rest of a string literal after its opening quote. -/
def parseString (cs : List Char) : Option (String × List Char) :=
  (scanString cs).map fun (ps, r) => (String.ofList (assemble none ps), r)

mutual

/-- A value at the front of the text. -/
def parseValue : ℕ → List Char → Option (Json × List Char)
  | 0, _ => none
  | _ + 1, [] => none
  | _ + 1, 'n' :: 'u' :: 'l' :: 'l' :: rest => some (null, rest)
  | _ + 1, 't' :: 'r' :: 'u' :: 'e' :: rest => some (bool true, rest)
  | _ + 1, 'f' :: 'a' :: 'l' :: 's' :: 'e' :: rest => some (bool false, rest)
  | _ + 1, '"' :: rest => (parseString rest).map fun (s, r) => (str s, r)
  | fuel + 1, '[' :: rest =>
    match skipWs rest with
    | ']' :: rest' => some (arr [], rest')
    | rest' => (parseElements fuel rest').map fun (xs, r) => (arr xs, r)
  | fuel + 1, '{' :: rest =>
    match skipWs rest with
    | '}' :: rest' => some (obj [], rest')
    | rest' => (parseMembers fuel rest').map fun (ms, r) => (obj ms, r)
  | _ + 1, cs =>
    if h : isNumber (cs.takeWhile isNumberChar) = true then
      some (num ⟨cs.takeWhile isNumberChar, h⟩, cs.dropWhile isNumberChar)
    else none

/-- The elements of an array, at least one, and the closing bracket. -/
def parseElements : ℕ → List Char → Option (List Json × List Char)
  | 0, _ => none
  | fuel + 1, cs =>
    match parseValue fuel cs with
    | none => none
    | some (v, rest) =>
      match skipWs rest with
      | ']' :: rest' => some ([v], rest')
      | ',' :: rest' => (parseElements fuel (skipWs rest')).map fun (vs, r) => (v :: vs, r)
      | _ => none

/-- The members of an object, at least one, and the closing brace. -/
def parseMembers : ℕ → List Char → Option (List (String × Json) × List Char)
  | 0, _ => none
  | fuel + 1, '"' :: cs =>
    match parseString cs with
    | none => none
    | some (k, rest) =>
      match skipWs rest with
      | ':' :: rest' =>
        match parseValue fuel (skipWs rest') with
        | none => none
        | some (v, rest'') =>
          match skipWs rest'' with
          | '}' :: r => some ([(k, v)], r)
          | ',' :: r =>
            (parseMembers fuel (skipWs r)).map fun (ms, r') => ((k, v) :: ms, r')
          | _ => none
      | _ => none
  | _ + 1, _ => none

end

/-- The value that a text is, white space around it aside. -/
def parse (s : String) : Option Json :=
  match parseValue (2 * s.toList.length + 2) (skipWs s.toList) with
  | some (v, rest) => if skipWs rest = [] then some v else none
  | none => none

/-! ## The printer -/

/-- A piece that stands for the character, whatever follows. -/
def Spells (c : Char) (p : Piece) : Prop := p = .char c ∨ p = .unit c.toNat ∧ c.toNat < 0xD800

/-- How a printer writes the characters of a string, in a way a parser reads back. -/
structure Escape where
  chars : Char → List Char
  scans : ∀ c, ∃ p, Spells c p ∧
    ∀ rest, scanString (chars c ++ rest) = (scanString rest).map fun (ps, r) => (p :: ps, r)

variable (esc : Escape)

def printString (s : String) : List Char := '"' :: (s.toList.flatMap esc.chars ++ ['"'])

mutual

/-- A value without white space. -/
def print : Json → List Char
  | null => ['n', 'u', 'l', 'l']
  | bool true => ['t', 'r', 'u', 'e']
  | bool false => ['f', 'a', 'l', 's', 'e']
  | num n => n.text
  | str s => printString esc s
  | arr [] => ['[', ']']
  | arr (x :: xs) => '[' :: (print x ++ (printElements xs ++ [']']))
  | obj [] => ['{', '}']
  | obj ((k, v) :: ms) =>
    '{' :: (printString esc k ++ (':' :: (print v ++ (printMembers ms ++ ['}']))))

/-- The elements after the first. -/
def printElements : List Json → List Char
  | [] => []
  | x :: xs => ',' :: (print x ++ printElements xs)

/-- The members after the first. -/
def printMembers : List (String × Json) → List Char
  | [] => []
  | (k, v) :: ms => ',' :: (printString esc k ++ (':' :: (print v ++ printMembers ms)))

end

/-! ## Number literals -/

theorem isNumberChar_of_isDigit {c : Char} (h : c.isDigit = true) : isNumberChar c = true := by
  unfold isNumberChar
  simp [h]

theorem isNumberChar_of_isDigits {cs : List Char} (h : isDigits cs = true) :
    ∀ c ∈ cs, isNumberChar c = true := by
  unfold isDigits at h
  rw [decide_eq_true_eq] at h
  intro c hc
  exact isNumberChar_of_isDigit (List.all_eq_true.mp h.2 c hc)

theorem isNumberChar_of_isExponent {cs : List Char} (h : isExponent cs = true) :
    ∀ c ∈ cs, isNumberChar c = true := by
  unfold isExponent at h
  split at h
  · intro c hc
    cases hc
  · rename_i e cs'
    rw [Bool.and_eq_true, decide_eq_true_eq] at h
    obtain ⟨he, h⟩ := h
    intro c hc
    rcases List.mem_cons.mp hc with rfl | hc
    · rcases he with rfl | rfl <;> rfl
    · split at h
      · rcases List.mem_cons.mp hc with rfl | hc
        · rfl
        · exact isNumberChar_of_isDigits h c hc
      · rcases List.mem_cons.mp hc with rfl | hc
        · rfl
        · exact isNumberChar_of_isDigits h c hc
      · exact isNumberChar_of_isDigits h c hc

/-- Digits and what follows them. -/
theorem isNumberChar_of_span {cs : List Char}
    (h : ∀ c ∈ cs.dropWhile Char.isDigit, isNumberChar c = true) :
    ∀ c ∈ cs, isNumberChar c = true := by
  intro c hc
  rw [← List.takeWhile_append_dropWhile (p := Char.isDigit) (l := cs), List.mem_append] at hc
  rcases hc with hc | hc
  · exact isNumberChar_of_isDigit (List.mem_takeWhile_imp hc)
  · exact h c hc

theorem isNumberChar_of_isFraction {cs : List Char} (h : isFraction cs = true) :
    ∀ c ∈ cs, isNumberChar c = true := by
  unfold isFraction at h
  split at h
  · rw [decide_eq_true_eq] at h
    intro c hc
    rcases List.mem_cons.mp hc with rfl | hc
    · rfl
    · exact isNumberChar_of_span (isNumberChar_of_isExponent h.2) c hc
  · exact isNumberChar_of_isExponent h

theorem isNumberChar_of_isUnsigned {cs : List Char} (h : isUnsigned cs = true) :
    ∀ c ∈ cs, isNumberChar c = true := by
  unfold isUnsigned at h
  split at h
  · intro c hc
    rcases List.mem_cons.mp hc with rfl | hc
    · rfl
    · exact isNumberChar_of_isFraction h c hc
  · rw [decide_eq_true_eq] at h
    exact isNumberChar_of_span (isNumberChar_of_isFraction h.2)

/-- A number literal is made of number characters. -/
theorem isNumberChar_of_isNumber {cs : List Char} (h : isNumber cs = true) :
    ∀ c ∈ cs, isNumberChar c = true := by
  unfold isNumber at h
  split at h
  · intro c hc
    rcases List.mem_cons.mp hc with rfl | hc
    · rfl
    · exact isNumberChar_of_isUnsigned h c hc
  · exact isNumberChar_of_isUnsigned h

theorem isUnsigned_head {cs : List Char} (h : isUnsigned cs = true) :
    ∃ c rest, cs = c :: rest ∧ c.isDigit = true := by
  unfold isUnsigned at h
  split at h
  · exact ⟨'0', _, rfl, rfl⟩
  · rw [decide_eq_true_eq] at h
    cases cs with
    | nil => exact absurd rfl h.1
    | cons c rest =>
      refine ⟨c, rest, rfl, ?_⟩
      by_contra hc
      exact h.1 (by rw [List.takeWhile_cons_of_neg hc])

/-- A number literal starts with a digit or a minus sign. -/
theorem isNumber_head {cs : List Char} (h : isNumber cs = true) :
    ∃ c rest, cs = c :: rest ∧ (c = '-' ∨ c.isDigit = true) := by
  unfold isNumber at h
  split at h
  · exact ⟨'-', _, rfl, Or.inl rfl⟩
  · obtain ⟨c, rest, rfl, hc⟩ := isUnsigned_head h
    exact ⟨c, rest, rfl, Or.inr hc⟩

/-! ## Reading strings back -/

/-- A code unit that is not a surrogate pairs with nothing. -/
theorem pairChar_of_lt {u : ℕ} (hu : u < 0xD800) (v : ℕ) : pairChar u v = none := by
  unfold pairChar
  rw [if_neg]
  omega

theorem unitChar_of_lt {c : Char} (h : c.toNat < 0xD800) : unitChar c.toNat = c := by
  unfold unitChar
  rw [if_neg (by omega), Char.ofNat_toNat]

/-- Pieces that spell characters make these characters. -/
theorem assemble_spells {cs : List Char} {ps : List Piece} (h : List.Forall₂ Spells cs ps) :
    assemble none ps = cs ∧
      ∀ c : Char, c.toNat < 0xD800 → assemble (some c.toNat) ps = c :: cs := by
  induction h with
  | nil => exact ⟨rfl, fun c hc => by rw [assemble, unitChar_of_lt hc]⟩
  | @cons d p cs ps hd _ ih =>
    rcases hd with rfl | ⟨rfl, hd⟩
    · refine ⟨by rw [assemble, ih.1], fun c hc => ?_⟩
      rw [assemble, unitChar_of_lt hc, ih.1]
    · refine ⟨by rw [assemble, ih.2 d hd], fun c hc => ?_⟩
      rw [assemble, pairChar_of_lt hc]
      simp only
      rw [unitChar_of_lt hc, ih.2 d hd]

/-- The pieces of a printed string. -/
theorem scanString_flatMap (cs : List Char) (rest : List Char) :
    ∃ ps, List.Forall₂ Spells cs ps ∧
      scanString (cs.flatMap esc.chars ++ '"' :: rest) = some (ps, rest) := by
  induction cs with
  | nil => exact ⟨[], .nil, rfl⟩
  | cons c cs ih =>
    obtain ⟨ps, hps, hscan⟩ := ih
    obtain ⟨p, hp, hchars⟩ := esc.scans c
    refine ⟨p :: ps, .cons hp hps, ?_⟩
    rw [List.flatMap_cons, List.append_assoc, hchars, hscan]
    rfl

/-- **Strings survive being printed and parsed.** -/
theorem parseString_print (s : String) (rest : List Char) :
    parseString (s.toList.flatMap esc.chars ++ '"' :: rest) = some (s, rest) := by
  obtain ⟨ps, hps, hscan⟩ := scanString_flatMap esc s.toList rest
  unfold parseString
  rw [hscan, Option.map_some]
  simp only
  rw [(assemble_spells hps).1, String.ofList_toList]

/-! ## Reading values back -/

/-- The text does not go on with a number character. -/
def NumberEnds (rest : List Char) : Prop := ∀ c cs, rest = c :: cs → isNumberChar c = false

theorem numberEnds_cons {c : Char} (h : isNumberChar c = false) (cs : List Char) :
    NumberEnds (c :: cs) := by
  rintro d ds heq
  obtain ⟨rfl, -⟩ := List.cons.inj heq
  exact h

theorem skipWs_cons {c : Char} (h : isWs c = false) (cs : List Char) :
    skipWs (c :: cs) = c :: cs := by
  unfold skipWs
  rw [List.dropWhile_cons_of_neg (by rw [h]; exact Bool.false_ne_true)]

theorem span_number {text rest : List Char} (htext : ∀ c ∈ text, isNumberChar c = true)
    (hrest : NumberEnds rest) :
    (text ++ rest).takeWhile isNumberChar = text ∧
      (text ++ rest).dropWhile isNumberChar = rest := by
  rw [List.takeWhile_append_of_pos htext, List.dropWhile_append_of_pos htext]
  cases rest with
  | nil => exact ⟨by rw [List.takeWhile_nil, List.append_nil], rfl⟩
  | cons c cs =>
    have hc : ¬ isNumberChar c = true := by
      rw [hrest c cs rfl]
      exact Bool.false_ne_true
    rw [List.takeWhile_cons_of_neg hc, List.dropWhile_cons_of_neg hc, List.append_nil]
    exact ⟨rfl, rfl⟩

/-- A number literal at the front of the text. -/
theorem parseValue_number (n : NumberLit) {rest : List Char} (hrest : NumberEnds rest)
    (fuel : ℕ) : parseValue (fuel + 1) (n.text ++ rest) = some (num n, rest) := by
  have hchars := isNumberChar_of_isNumber n.valid
  obtain ⟨htake, hdrop⟩ := span_number hchars hrest
  obtain ⟨c, cs, htext, hc⟩ := isNumber_head n.valid
  have hother : ∀ d : Char, isNumberChar d = false → c ≠ d := by
    rintro d hd rfl
    rw [hchars c (by rw [htext]; exact List.mem_cons_self)] at hd
    cases hd
  have hhead : n.text ++ rest = c :: (cs ++ rest) := by rw [htext, List.cons_append]
  have hlit : parseValue (fuel + 1) (n.text ++ rest) =
      if h : isNumber ((n.text ++ rest).takeWhile isNumberChar) = true then
        some (num ⟨(n.text ++ rest).takeWhile isNumberChar, h⟩,
          (n.text ++ rest).dropWhile isNumberChar)
      else none := by
    rw [hhead]
    -- no literal or bracket starts with a number character
    have hn := hother 'n' rfl
    have ht := hother 't' rfl
    have hf := hother 'f' rfl
    have hq := hother '"' rfl
    have hb := hother '[' rfl
    have ho := hother '{' rfl
    rw [parseValue.eq_def]
    split <;> simp_all
  rw [hlit]
  simp only [htake, hdrop, n.valid, dite_true]

/-- A printed value starts neither with white space nor with a closing bracket. -/
theorem print_head (v : Json) :
    ∃ c cs, print esc v = c :: cs ∧ isWs c = false ∧ c ≠ ']' ∧ c ≠ '}' := by
  cases v with
  | null => exact ⟨'n', _, rfl, rfl, by decide, by decide⟩
  | bool b => cases b <;> exact ⟨_, _, rfl, rfl, by decide, by decide⟩
  | num n =>
    obtain ⟨c, cs, htext, hc⟩ := isNumber_head n.valid
    refine ⟨c, cs, by rw [print, htext], ?_⟩
    rcases hc with rfl | hc
    · exact ⟨rfl, by decide, by decide⟩
    · have hne : ∀ d : Char, d.isDigit = false → c ≠ d := by
        rintro d hd rfl
        rw [hc] at hd
        cases hd
      refine ⟨?_, hne ']' rfl, hne '}' rfl⟩
      unfold isWs
      simp [hne ' ' rfl, hne '\t' rfl, hne '\n' rfl, hne '\r' rfl]
  | str s => exact ⟨'"', _, rfl, rfl, by decide, by decide⟩
  | arr xs => cases xs <;> exact ⟨'[', _, rfl, rfl, by decide, by decide⟩
  | obj ms => rcases ms with _ | ⟨⟨k, v⟩, ms⟩ <;> exact ⟨'{', _, rfl, rfl, by decide, by decide⟩

theorem skipWs_print (v : Json) (rest : List Char) :
    skipWs (print esc v ++ rest) = print esc v ++ rest := by
  obtain ⟨c, cs, hprint, hws, -, -⟩ := print_head esc v
  rw [hprint, List.cons_append, skipWs_cons hws]

theorem length_print_pos (v : Json) : 0 < (print esc v).length := by
  obtain ⟨c, cs, hprint, -⟩ := print_head esc v
  rw [hprint]
  exact Nat.succ_pos _

/-- After the elements that follow comes a comma or the closing bracket. -/
theorem numberEnds_printElements (xs : List Json) (rest : List Char) :
    NumberEnds (printElements esc xs ++ ']' :: rest) := by
  cases xs with
  | nil => exact numberEnds_cons rfl _
  | cons x xs => exact numberEnds_cons rfl _

theorem numberEnds_printMembers (ms : List (String × Json)) (rest : List Char) :
    NumberEnds (printMembers esc ms ++ '}' :: rest) := by
  rcases ms with _ | ⟨⟨k, v⟩, ms⟩
  · exact numberEnds_cons rfl _
  · exact numberEnds_cons rfl _

mutual

/-- **A printed value is read back**, whatever follows, if it does not go on as a number. -/
theorem parseValue_print (v : Json) (fuel : ℕ) (rest : List Char)
    (hfuel : 2 * (print esc v).length ≤ fuel) (hrest : NumberEnds rest) :
    parseValue fuel (print esc v ++ rest) = some (v, rest) := by
  have hpos := length_print_pos esc v
  obtain ⟨fuel, rfl⟩ : ∃ f, fuel = f + 1 := ⟨fuel - 1, by omega⟩
  match v with
  | null => rfl
  | bool true => rfl
  | bool false => rfl
  | num n => exact parseValue_number n hrest fuel
  | str s =>
    rw [print, printString, List.cons_append, List.append_assoc, List.singleton_append,
      parseValue, parseString_print, Option.map_some]
  | arr [] => rfl
  | arr (x :: xs) =>
    rw [print, List.cons_append, List.append_assoc, List.append_assoc, List.singleton_append]
    have hxs : parseElements fuel (print esc x ++ (printElements esc xs ++ ']' :: rest)) =
        some (x :: xs, rest) := by
      refine parseElements_print x xs fuel rest ?_
      rw [print, List.length_cons, List.length_append, List.length_append] at hfuel
      omega
    obtain ⟨c, cs, hprint, hws, hb, -⟩ := print_head esc x
    rw [hprint, List.cons_append] at hxs ⊢
    rw [parseValue, skipWs_cons hws]
    split
    · rename_i heq
      exact absurd (List.cons.inj heq).1 hb
    · rw [hxs, Option.map_some]
  | obj [] => rfl
  | obj ((k, w) :: ms) =>
    rw [print, List.cons_append, List.append_assoc, List.cons_append, List.append_assoc,
      List.append_assoc, List.singleton_append]
    have hms : parseMembers fuel (printString esc k ++
        (':' :: (print esc w ++ (printMembers esc ms ++ '}' :: rest)))) =
        some ((k, w) :: ms, rest) := by
      refine parseMembers_print k w ms fuel rest ?_
      rw [print, List.length_cons, List.length_append, List.length_cons, List.length_append,
        List.length_append] at hfuel
      omega
    rw [printString, List.cons_append] at hms ⊢
    rw [parseValue, skipWs_cons rfl]
    split
    · rename_i heq
      exact absurd (List.cons.inj heq).1 (by decide)
    · rw [hms, Option.map_some]
termination_by fuel

theorem parseElements_print (x : Json) (xs : List Json) (fuel : ℕ) (rest : List Char)
    (hfuel : 2 * ((print esc x).length + (printElements esc xs).length) + 1 ≤ fuel) :
    parseElements fuel (print esc x ++ (printElements esc xs ++ ']' :: rest)) =
      some (x :: xs, rest) := by
  obtain ⟨fuel, rfl⟩ : ∃ f, fuel = f + 1 := ⟨fuel - 1, by omega⟩
  rw [parseElements, parseValue_print x fuel _ (by omega) (numberEnds_printElements esc xs rest)]
  simp only
  match xs with
  | [] => rfl
  | y :: ys =>
    have hpos := length_print_pos esc x
    rw [printElements, List.length_cons, List.length_append] at hfuel
    rw [printElements, List.cons_append, skipWs_cons rfl]
    simp only
    rw [List.append_assoc, skipWs_print, parseElements_print y ys fuel rest (by omega),
      Option.map_some]
termination_by fuel

theorem parseMembers_print (k : String) (v : Json) (ms : List (String × Json)) (fuel : ℕ)
    (rest : List Char)
    (hfuel : 2 * ((print esc v).length + (printMembers esc ms).length) + 1 ≤ fuel) :
    parseMembers fuel (printString esc k ++
      (':' :: (print esc v ++ (printMembers esc ms ++ '}' :: rest)))) =
      some ((k, v) :: ms, rest) := by
  obtain ⟨fuel, rfl⟩ : ∃ f, fuel = f + 1 := ⟨fuel - 1, by omega⟩
  rw [printString, List.cons_append, List.append_assoc, List.singleton_append, parseMembers,
    parseString_print]
  simp only
  rw [skipWs_cons rfl]
  simp only
  rw [skipWs_print,
    parseValue_print v fuel _ (by omega) (numberEnds_printMembers esc ms rest)]
  simp only
  match ms with
  | [] => rfl
  | (k', w) :: ms =>
    have hpos := length_print_pos esc v
    rw [printMembers, List.length_cons, List.length_append, List.length_cons,
      List.length_append] at hfuel
    rw [printMembers, List.cons_append, skipWs_cons rfl]
    simp only
    rw [List.append_assoc, List.cons_append, List.append_assoc]
    have hws : skipWs (printString esc k' ++
        (':' :: (print esc w ++ (printMembers esc ms ++ '}' :: rest)))) =
        printString esc k' ++ (':' :: (print esc w ++ (printMembers esc ms ++ '}' :: rest))) := by
      rw [printString, List.cons_append, skipWs_cons rfl]
    rw [hws, parseMembers_print k' w ms fuel rest (by omega), Option.map_some]
termination_by fuel

end

/-- **Round trip**: a printed value is parsed to itself, whatever white space follows. -/
theorem parse_print_append (v : Json) {ws : List Char} (hws : ∀ c ∈ ws, isWs c = true) :
    parse (String.ofList (print esc v ++ ws)) = some v := by
  have hends : NumberEnds ws := by
    rintro c cs rfl
    have hc := hws c List.mem_cons_self
    unfold isWs at hc
    rcases of_decide_eq_true hc with rfl | rfl | rfl | rfl
    all_goals rfl
  have hvalue : parseValue (2 * (print esc v ++ ws).length + 2) (print esc v ++ ws) =
      some (v, ws) :=
    parseValue_print esc v _ ws (by rw [List.length_append]; omega) hends
  have hrest : skipWs ws = [] := List.dropWhile_eq_nil_iff.mpr hws
  unfold parse
  rw [String.toList_ofList, skipWs_print, hvalue]
  simp only
  rw [hrest, if_pos rfl]

theorem parse_print (v : Json) : parse (String.ofList (print esc v)) = some v := by
  have h := @parse_print_append esc v [] (fun _ h => nomatch h)
  rwa [List.append_nil] at h

/-! ## The escapes in use -/

/-- The letter of the characters that have an escape of one letter. -/
def letterEscape (c : Char) : Option Char :=
  match c with
  | '"' => some '"'
  | '\\' => some '\\'
  | '\x08' => some 'b'
  | '\x0c' => some 'f'
  | '\n' => some 'n'
  | '\r' => some 'r'
  | '\t' => some 't'
  | _ => none

/-- A code unit in four lower-case hexadecimal digits. -/
def unicodeEscape (u : ℕ) : List Char :=
  ['\\', 'u', Nat.digitChar (u / 4096 % 16), Nat.digitChar (u / 256 % 16),
    Nat.digitChar (u / 16 % 16), Nat.digitChar (u % 16)]

/-- One character of a string; control characters and those of `extra` are escaped. -/
def escapeChar (extra : Char → Bool) (c : Char) : List Char :=
  match letterEscape c with
  | some l => ['\\', l]
  | none => if c.toNat < 0x20 ∨ extra c = true then unicodeEscape c.toNat else [c]

theorem simpleEscape_letterEscape {c l : Char} (h : letterEscape c = some l) :
    simpleEscape l = some c ∧ l ≠ 'u' := by
  unfold letterEscape at h
  split at h
  all_goals first
    | cases h
      exact ⟨rfl, by decide⟩
    | cases h

theorem hexDigit_digitChar {n : ℕ} (h : n < 16) : hexDigit (Nat.digitChar n) = some n := by
  interval_cases n <;> rfl

theorem scanString_unicodeEscape {u : ℕ} (hu : u < 65536) (rest : List Char) :
    scanString (unicodeEscape u ++ rest) =
      (scanString rest).map fun (ps, r) => (.unit u :: ps, r) := by
  have hhex : hex4 (Nat.digitChar (u / 4096 % 16)) (Nat.digitChar (u / 256 % 16))
      (Nat.digitChar (u / 16 % 16)) (Nat.digitChar (u % 16)) = some u := by
    unfold hex4
    rw [hexDigit_digitChar (Nat.mod_lt _ (by norm_num)),
      hexDigit_digitChar (Nat.mod_lt _ (by norm_num)),
      hexDigit_digitChar (Nat.mod_lt _ (by norm_num)),
      hexDigit_digitChar (Nat.mod_lt _ (by norm_num))]
    simp only [Option.some.injEq]
    omega
  unfold unicodeEscape
  simp only [List.cons_append, List.nil_append]
  rw [scanString, hhex]

theorem letterEscape_quote {c : Char} (h : letterEscape c = none) : c ≠ '"' ∧ c ≠ '\\' := by
  constructor
  · rintro rfl
    cases h
  · rintro rfl
    cases h

/-- The ways to write a character that are read back: a letter that stands for it, its
code unit, or itself. -/
theorem scans_letter {c l : Char} (h : simpleEscape l = some c) (hu : l ≠ 'u') :
    ∃ p, Spells c p ∧ ∀ rest, scanString (['\\', l] ++ rest) =
      (scanString rest).map fun (ps, r) => (p :: ps, r) := by
  refine ⟨.char c, Or.inl rfl, fun rest => ?_⟩
  simp only [List.cons_append, List.nil_append]
  rw [scanString, h]
  rintro a b d e rest' heq
  exact absurd heq hu

theorem scans_unicode {c : Char} (h : c.toNat < 0xD800) :
    ∃ p, Spells c p ∧ ∀ rest, scanString (unicodeEscape c.toNat ++ rest) =
      (scanString rest).map fun (ps, r) => (p :: ps, r) :=
  ⟨.unit c.toNat, Or.inr ⟨rfl, h⟩, scanString_unicodeEscape (by omega)⟩

theorem scans_plain {c : Char} (hquote : c ≠ '"') (hslash : c ≠ '\\') (hcontrol : ¬c.toNat < 0x20) :
    ∃ p, Spells c p ∧ ∀ rest, scanString ([c] ++ rest) =
      (scanString rest).map fun (ps, r) => (p :: ps, r) := by
  refine ⟨.char c, Or.inl rfl, fun rest => ?_⟩
  rw [List.singleton_append, scanString, if_neg]
  · intro hc
    rcases hc with hc | hc
    · exact hslash hc
    · exact hcontrol hc
  · exact hquote
  · rintro a b d e rest' rfl
    exact absurd rfl hslash
  · rintro e rest' rfl
    exact absurd rfl hslash

/-- The escapes of the usual printers: `extra` are the characters below the
surrogates that a printer escapes besides quotes, backslashes and controls. -/
def standardEscape (extra : Char → Bool) (hextra : ∀ c, extra c = true → c.toNat < 0xD800) :
    Escape where
  chars := escapeChar extra
  scans := by
    intro c
    unfold escapeChar
    cases hl : letterEscape c with
    | some l =>
      obtain ⟨hsimple, hu⟩ := simpleEscape_letterEscape hl
      exact scans_letter hsimple hu
    | none =>
      dsimp only
      split_ifs with h
      · refine scans_unicode ?_
        rcases h with h | h
        · omega
        · exact hextra c h
      · obtain ⟨hquote, hslash⟩ := letterEscape_quote hl
        exact scans_plain hquote hslash fun hc => h (Or.inl hc)

/-- `json.Marshal` also escapes the characters that are unsafe in HTML and in scripts. -/
def goExtra (c : Char) : Bool :=
  c = '<' ∨ c = '>' ∨ c = '&' ∨ c.toNat = 0x2028 ∨ c.toNat = 0x2029

theorem toNat_of_goExtra (c : Char) (h : goExtra c = true) : c.toNat < 0xD800 := by
  unfold goExtra at h
  rw [decide_eq_true_eq] at h
  rcases h with rfl | rfl | rfl | h | h
  · decide
  · decide
  · decide
  · omega
  · omega

/-- The strings of Go's `json.Marshal`. -/
def goEscape : Escape := standardEscape goExtra toNat_of_goExtra

/-- The strings of JavaScript's `JSON.stringify`. -/
def jsEscape : Escape := standardEscape (fun _ => false) fun _ h => (nomatch h)

end Json
