/-
# JSON in the Rust wrapper

The wrapper of Rust submissions has no JSON library: it reads its payload with a parser of
its own and prints results with encoders of its own (`pkg/wrappers/rust_wrapper.tpl`).  A
text is the list of its characters; the fuel of the parser is more than a text needs.

* `run_print` : a printed JSON value is read back, whatever the printer escapes.
* `getInputs_payload` : the inputs of a test arrive.
* `json_round_trip` : what the encoders print is read back by the matching helpers.
-/
import JudgePlatform.Library.GoValue

namespace Judge

/-! ## Values -/

/-- `enum Json`. -/
inductive RustJson where
  | null
  | bool (b : Bool)
  | num (x : Binary64)
  | str (s : String)
  | arr (items : List RustJson)
  | obj (entries : List (String × RustJson))

namespace RustJson

/-- What the texts of the parser's errors are made of. -/
inductive ParseError where
  | expected (c : Char) (got : Option Char)
  | expectedEither (c d : Char) (got : Option Char)
  | unexpectedToken (got : Option Char)
  | invalidEscape (got : Option Char)
  | unterminatedString
  | invalidLiteral
  | invalidFloat (text : List Char)
  /-- not an error of the wrapper: the fuel is used up -/
  | outOfFuel

/-- What is parsed, and the characters that are left. -/
abbrev Parsed (α : Type) := Except ParseError (α × List Char)

/-! ## The parser -/

/-- `skip_ws`; `char::is_whitespace` and `unicode.IsSpace` are one property. -/
def skipWs (cs : List Char) : List Char := cs.dropWhile Text.isSpace

def expect (c : Char) : List Char → Parsed Unit
  | x :: rest => if x = c then .ok ((), rest) else .error (.expected c (some x))
  | [] => .error (.expected c none)

/-- `u32::from_str_radix(hex, 16)` on at most four characters. -/
def fromStrRadix : List Char → Option ℕ
  | '+' :: ds => digits ds
  | ds => digits ds
where
  digits (ds : List Char) : Option ℕ :=
    if ds = [] then none
    else ds.foldl (fun n c => n.bind fun n => (Json.hexDigit c).map (n * 16 + ·)) (some 0)

/-- `char::from_u32`. -/
def fromU32 (code : ℕ) : Option Char := if code.isValidChar then some (Char.ofNat code) else none

/-- The loop of `parse_string`; a `\u` escape that stands for no character is left out. -/
def parseStringLoop : List Char → Parsed (List Char)
  | [] => .error .unterminatedString
  | '"' :: rest => .ok ([], rest)
  | '\\' :: 'u' :: rest =>
    (parseStringLoop (rest.drop 4)).map fun (s, r) =>
      (((fromStrRadix (rest.take 4)).bind fromU32).toList ++ s, r)
  | '\\' :: e :: rest =>
    match Json.simpleEscape e with
    | some c => (parseStringLoop rest).map fun (s, r) => (c :: s, r)
    | none => .error (.invalidEscape (some e))
  | ['\\'] => .error (.invalidEscape none)
  | c :: rest => (parseStringLoop rest).map fun (s, r) => (c :: s, r)
termination_by cs => cs.length
decreasing_by all_goals simp only [List.length_cons, List.length_drop]; omega

def parseString (cs : List Char) : Parsed String :=
  match expect '"' cs with
  | .error e => .error e
  | .ok (_, rest) => (parseStringLoop rest).map fun (s, r) => (String.ofList s, r)

/-- `starts_with` on the next characters, which are taken if they are the word. -/
def literal (word : String) (v : RustJson) (cs : List Char) : Option (RustJson × List Char) :=
  if word.toList.isPrefixOf cs then some (v, cs.drop word.toList.length) else none

def parseBool (cs : List Char) : Parsed RustJson :=
  match (literal "true" (bool true) cs).or (literal "false" (bool false) cs) with
  | some r => .ok r
  | none => .error .invalidLiteral

def parseNull (cs : List Char) : Parsed RustJson :=
  match literal "null" null cs with
  | some r => .ok r
  | none => .error .invalidLiteral

/-- The texts without a sign that `parse::<f64>` takes, infinities and NaN aside. -/
def isUnsignedF64 (cs : List Char) : Bool :=
  match cs.dropWhile Char.isDigit with
  | '.' :: rest =>
    (cs.takeWhile Char.isDigit ≠ [] ∨ rest.takeWhile Char.isDigit ≠ []) ∧
      Json.isExponent (rest.dropWhile Char.isDigit)
  | rest => cs.takeWhile Char.isDigit ≠ [] ∧ Json.isExponent rest

def unsignedF64 (cs : List Char) : Option Binary64 :=
  if isUnsignedF64 cs then some (.ofRat (JsonNumber.readUnsigned cs)) else none

/-- `s.parse::<f64>()` on the characters of numbers. -/
def parseF64 : List Char → Option Binary64
  | '-' :: cs => (unsignedF64 cs).map Binary64.neg
  | '+' :: cs => unsignedF64 cs
  | cs => unsignedF64 cs

/-- The characters after the minus sign that `parse_number` collects: those of number
literals. -/
def parseNumber (cs : List Char) : Parsed RustJson :=
  let (minus, rest) := match cs with
    | '-' :: rest => (['-'], rest)
    | _ => ([], cs)
  let s := minus ++ rest.takeWhile Json.isNumberChar
  match parseF64 s with
  | some x => .ok (num x, rest.dropWhile Json.isNumberChar)
  | none => .error (.invalidFloat s)

mutual

def parseValue : ℕ → List Char → Parsed RustJson
  | 0, _ => .error .outOfFuel
  | fuel + 1, cs =>
    match skipWs cs with
    | '{' :: rest => parseObject fuel rest
    | '[' :: rest => parseArray fuel rest
    | '"' :: rest => (parseString ('"' :: rest)).map fun (s, r) => (str s, r)
    | 't' :: rest => parseBool ('t' :: rest)
    | 'f' :: rest => parseBool ('f' :: rest)
    | 'n' :: rest => parseNull ('n' :: rest)
    | c :: rest =>
      if c.isDigit ∨ c = '-' then parseNumber (c :: rest)
      else .error (.unexpectedToken (some c))
    | [] => .error (.unexpectedToken none)

/-- `parse_object` after the brace. -/
def parseObject : ℕ → List Char → Parsed RustJson
  | 0, _ => .error .outOfFuel
  | fuel + 1, cs =>
    match skipWs cs with
    | '}' :: rest => .ok (obj [], rest)
    | cs => (parseEntries fuel cs).map fun (es, r) => (obj es, r)

/-- The loop of `parse_object`. -/
def parseEntries : ℕ → List Char → Parsed (List (String × RustJson))
  | 0, _ => .error .outOfFuel
  | fuel + 1, cs =>
    match parseString (skipWs cs) with
    | .error e => .error e
    | .ok (key, rest) =>
      match expect ':' (skipWs rest) with
      | .error e => .error e
      | .ok (_, rest) =>
        match parseValue fuel rest with
        | .error e => .error e
        | .ok (val, rest) =>
          match skipWs rest with
          | ',' :: rest => (parseEntries fuel rest).map fun (es, r) => ((key, val) :: es, r)
          | '}' :: rest => .ok ([(key, val)], rest)
          | other => .error (.expectedEither ',' '}' other.head?)

/-- `parse_array` after the bracket. -/
def parseArray : ℕ → List Char → Parsed RustJson
  | 0, _ => .error .outOfFuel
  | fuel + 1, cs =>
    match skipWs cs with
    | ']' :: rest => .ok (arr [], rest)
    | cs => (parseItems fuel cs).map fun (items, r) => (arr items, r)

/-- The loop of `parse_array`. -/
def parseItems : ℕ → List Char → Parsed (List RustJson)
  | 0, _ => .error .outOfFuel
  | fuel + 1, cs =>
    match parseValue fuel cs with
    | .error e => .error e
    | .ok (val, rest) =>
      match skipWs rest with
      | ',' :: rest => (parseItems fuel rest).map fun (items, r) => (val :: items, r)
      | ']' :: rest => .ok ([val], rest)
      | other => .error (.expectedEither ',' ']' other.head?)

end

/-- `parse_json`, with the characters it has not looked at. -/
def run (s : List Char) : Parsed RustJson := parseValue (3 * s.length + 3) s

def parseJson (s : List Char) : Except ParseError RustJson := (run s).map Prod.fst

/-! ## The helpers -/

/-- `get_inputs`: the first member of that name that is an array. -/
def getInputs : RustJson → List RustJson
  | obj entries =>
    (entries.findSome? fun
      | ("inputs", arr a) => some a
      | _ => none).getD []
  | _ => []

/-- `as i32` on a double: towards zero, and to the nearest `i32` beyond the last one. -/
def asI32 : Binary64 → Int32
  | .finite q _ => .ofInt (max (-2 ^ 31) (min (2 ^ 31 - 1) (q.num.tdiv q.den)))
  | .negZero => 0
  | .inf negative => if negative then Int32.minValue else Int32.maxValue
  | .nan => 0

def jsonToI32 : RustJson → Int32
  | num n => asI32 n
  | _ => 0

def jsonToString : RustJson → String
  | str s => s
  | _ => ""

def jsonToBool : RustJson → Bool
  | bool b => b
  | _ => false

/-- The helpers for vectors and matrices, by the one for their items. -/
def jsonToVec {α : Type} (item : RustJson → α) : RustJson → List α
  | arr a => a.map item
  | _ => []

def jsonToVecI32 : RustJson → List Int32 := jsonToVec jsonToI32

def jsonToVecString : RustJson → List String := jsonToVec jsonToString

def jsonToVecBool : RustJson → List Bool := jsonToVec jsonToBool

def jsonToMatrixI32 : RustJson → List (List Int32) := jsonToVec jsonToVecI32

def jsonToMatrixString : RustJson → List (List String) := jsonToVec jsonToVecString

def jsonToMatrixBool : RustJson → List (List Bool) := jsonToVec jsonToVecBool

/-! ## The encoders -/

/-- `format!("[{}]", parts.join(","))`. -/
def joined (parts : List (List Char)) : List Char := '[' :: ([','].intercalate parts ++ [']'])

def i32ToJson (v : Int32) : List Char := Text.intDigits v.toInt

def boolToJson (v : Bool) : List Char := if v then "true".toList else "false".toList

/-- What `string_to_json` prints for one character. -/
def charToJson (c : Char) : List Char :=
  match c with
  | '"' => ['\\', '"']
  | '\\' => ['\\', '\\']
  | '\n' => ['\\', 'n']
  | '\r' => ['\\', 'r']
  | '\t' => ['\\', 't']
  | c => if c.toNat < 0x20 then Json.unicodeEscape c.toNat else [c]

def stringToJson (v : String) : List Char := '"' :: (v.toList.flatMap charToJson ++ ['"'])

/-- The encoders of vectors and matrices, by the one of their items. -/
def vecToJson {α : Type} (item : α → List Char) (v : List α) : List Char := joined (v.map item)

def vecI32ToJson : List Int32 → List Char := vecToJson i32ToJson

def vecStringToJson : List String → List Char := vecToJson stringToJson

def vecBoolToJson : List Bool → List Char := vecToJson boolToJson

def matrixI32ToJson : List (List Int32) → List Char := vecToJson vecI32ToJson

def matrixStringToJson : List (List String) → List Char := vecToJson vecStringToJson

def matrixBoolToJson : List (List Bool) → List Char := vecToJson vecBoolToJson

/-! ## Strings are read back -/

/-- A printer of strings whose characters the parser reads. -/
def Read (chars : Char → List Char) : Prop :=
  ∀ c rest, parseStringLoop (chars c ++ rest) =
    (parseStringLoop rest).map fun (s, r) => (c :: s, r)

theorem parseStringLoop_letter {c l : Char} (h : Json.simpleEscape l = some c) (hu : l ≠ 'u')
    (rest : List Char) :
    parseStringLoop ('\\' :: l :: rest) =
      (parseStringLoop rest).map fun (s, r) => (c :: s, r) := by
  rw [parseStringLoop, h]
  exact hu

theorem parseStringLoop_plain {c : Char} (hquote : c ≠ '"') (hslash : c ≠ '\\') (rest : List Char) :
    parseStringLoop (c :: rest) = (parseStringLoop rest).map fun (s, r) => (c :: s, r) := by
  rw [parseStringLoop]
  · exact hquote
  · rintro rest' rfl
    exact absurd rfl hslash
  · rintro e rest' rfl
    exact absurd rfl hslash
  · rintro rfl
    exact absurd rfl hslash

theorem fromStrRadix_digits {u : ℕ} (hu : u < 65536) :
    fromStrRadix [Nat.digitChar (u / 4096 % 16), Nat.digitChar (u / 256 % 16),
      Nat.digitChar (u / 16 % 16), Nat.digitChar (u % 16)] = some u := by
  have hplus : ∀ n, n < 16 → Nat.digitChar n ≠ '+' := by
    intro n hn
    interval_cases n <;> decide
  unfold fromStrRadix
  split
  · rename_i heq
    exact absurd (List.cons.inj heq).1 (hplus _ (Nat.mod_lt _ (by norm_num)))
  · unfold fromStrRadix.digits
    simp only [reduceCtorEq, if_false, List.foldl_cons, List.foldl_nil, Option.bind_some,
      Json.hexDigit_digitChar (Nat.mod_lt _ (by norm_num : 0 < 16)), Option.map_some,
      Option.some.injEq]
    omega

theorem parseStringLoop_unicode {c : Char} (h : c.toNat < 0xD800) (rest : List Char) :
    parseStringLoop (Json.unicodeEscape c.toNat ++ rest) =
      (parseStringLoop rest).map fun (s, r) => (c :: s, r) := by
  have hchar : fromU32 c.toNat = some c := by
    have hvalid : c.toNat.isValidChar := c.valid
    unfold fromU32
    rw [if_pos hvalid, Char.ofNat_toNat]
  unfold Json.unicodeEscape
  simp only [List.cons_append, List.nil_append]
  rw [parseStringLoop]
  simp only [List.take_succ_cons, List.take_zero, List.drop_succ_cons, List.drop_zero,
    fromStrRadix_digits (show c.toNat < 65536 by omega), Option.bind_some, hchar,
    Option.toList_some, List.singleton_append]

/-- The printers of the library's JSON, `json.Marshal` of Go among them. -/
theorem read_escapeChar {extra : Char → Bool} (h : ∀ c, extra c = true → c.toNat < 0xD800) :
    Read (Json.escapeChar extra) := by
  intro c rest
  unfold Json.escapeChar
  cases hl : Json.letterEscape c with
  | some l =>
    obtain ⟨hsimple, hu⟩ := Json.simpleEscape_letterEscape hl
    exact parseStringLoop_letter hsimple hu rest
  | none =>
    dsimp only
    split_ifs with hc
    · refine parseStringLoop_unicode ?_ rest
      rcases hc with hc | hc
      · omega
      · exact h c hc
    · obtain ⟨hquote, hslash⟩ := Json.letterEscape_quote hl
      exact parseStringLoop_plain hquote hslash rest

theorem read_charToJson : Read charToJson := by
  intro c rest
  unfold charToJson
  split
  · exact parseStringLoop_letter rfl (by decide) rest
  · exact parseStringLoop_letter rfl (by decide) rest
  · exact parseStringLoop_letter rfl (by decide) rest
  · exact parseStringLoop_letter rfl (by decide) rest
  · exact parseStringLoop_letter rfl (by decide) rest
  · rename_i hquote hslash _ _ _
    split_ifs with hc
    · exact parseStringLoop_unicode (by omega) rest
    · exact parseStringLoop_plain hquote hslash rest

/-- The printer of the wrapper, whose strings any parser of JSON reads. -/
def rustEscape : Json.Escape where
  chars := charToJson
  scans := by
    intro c
    unfold charToJson
    split
    · exact Json.scans_letter rfl (by decide)
    · exact Json.scans_letter rfl (by decide)
    · exact Json.scans_letter rfl (by decide)
    · exact Json.scans_letter rfl (by decide)
    · exact Json.scans_letter rfl (by decide)
    · rename_i hquote hslash _ _ _
      split_ifs with hc
      · exact Json.scans_unicode (by omega)
      · exact Json.scans_plain hquote hslash hc

/-! ## Numbers are read -/

theorem dropWhile_of_isFraction {cs : List Char} (h : Json.isFraction cs = true) :
    cs.takeWhile Char.isDigit = [] ∧ cs.dropWhile Char.isDigit = cs := by
  cases cs with
  | nil => exact ⟨rfl, rfl⟩
  | cons c cs =>
    have hc : ¬c.isDigit = true := by
      intro hd
      unfold Json.isFraction at h
      split at h
      · rename_i heq
        rw [(List.cons.inj heq).1] at hd
        exact absurd hd (by decide)
      · unfold Json.isExponent at h
        have hmark := (Bool.and_eq_true_iff.mp h).1
        rw [decide_eq_true_eq] at hmark
        rcases hmark with rfl | rfl
        · exact absurd hd (by decide)
        · exact absurd hd (by decide)
    exact ⟨List.takeWhile_cons_of_neg hc, List.dropWhile_cons_of_neg hc⟩

theorem isUnsignedF64_of_isFraction {cs : List Char} (hint : cs.takeWhile Char.isDigit ≠ [])
    (h : Json.isFraction (cs.dropWhile Char.isDigit) = true) : isUnsignedF64 cs = true := by
  unfold isUnsignedF64
  split
  · rename_i rest heq
    rw [heq] at h
    unfold Json.isFraction at h
    simp only [decide_eq_true_eq] at h ⊢
    exact ⟨Or.inl hint, h.2⟩
  · rename_i hpoint
    rw [decide_eq_true_eq]
    refine ⟨hint, ?_⟩
    unfold Json.isFraction at h
    split at h
    · rename_i heq
      exact absurd heq (hpoint _)
    · exact h

theorem isUnsignedF64_of_isUnsigned {cs : List Char} (h : Json.isUnsigned cs = true) :
    isUnsignedF64 cs = true := by
  unfold Json.isUnsigned at h
  split at h
  · rename_i cs
    obtain ⟨-, hdrop⟩ := dropWhile_of_isFraction h
    refine isUnsignedF64_of_isFraction ?_ ?_
    · rw [List.takeWhile_cons_of_pos (by decide)]
      exact List.cons_ne_nil _ _
    · rw [List.dropWhile_cons_of_pos (by decide), hdrop]
      exact h
  · rw [decide_eq_true_eq] at h
    exact isUnsignedF64_of_isFraction h.1 h.2

/-- `parse::<f64>` takes the number literals of JSON. -/
theorem parseF64_isSome (n : NumberLit) : (parseF64 n.text).isSome = true := by
  obtain ⟨text, hvalid⟩ := n
  have hunsigned : ∀ cs, Json.isUnsigned cs = true → (unsignedF64 cs).isSome = true := by
    intro cs h
    unfold unsignedF64
    rw [if_pos (isUnsignedF64_of_isUnsigned h)]
    rfl
  simp only
  unfold Json.isNumber at hvalid
  split at hvalid
  · rw [parseF64, Option.isSome_map]
    exact hunsigned _ hvalid
  · rename_i hminus
    obtain ⟨c, cs, rfl, hc⟩ := Json.isUnsigned_head hvalid
    rw [parseF64]
    · exact hunsigned _ hvalid
    · exact hminus
    · rintro rest heq
      rw [(List.cons.inj heq).1] at hc
      exact absurd hc (by decide)

/-- The number that a literal is read as. -/
def numberOf (n : NumberLit) : Binary64 := (parseF64 n.text).getD .zero

theorem parseNumber_literal (n : NumberLit) {rest : List Char} (hrest : Json.NumberEnds rest) :
    parseNumber (n.text ++ rest) = .ok (num (numberOf n), rest) := by
  have hchars := Json.isNumberChar_of_isNumber n.valid
  obtain ⟨x, hx⟩ := Option.isSome_iff_exists.mp (parseF64_isSome n)
  have hnumber : numberOf n = x := by
    unfold numberOf
    rw [hx]
    rfl
  obtain ⟨c, cs, htext, -⟩ := Json.isNumber_head n.valid
  rw [hnumber]
  rw [htext] at hchars hx ⊢
  unfold parseNumber
  by_cases hminus : c = '-'
  · subst hminus
    obtain ⟨htake, hdrop⟩ :=
      Json.span_number (fun d hd => hchars d (List.mem_cons_of_mem _ hd)) hrest
    simp only [List.cons_append, htake, hdrop, List.nil_append, hx]
  · obtain ⟨htake, hdrop⟩ := Json.span_number hchars hrest
    have hsplit : (match c :: cs ++ rest with
        | '-' :: r => (['-'], r)
        | _ => ([], c :: cs ++ rest)) = ([], c :: cs ++ rest) := by
      rw [List.cons_append]
      split
      · rename_i heq
        exact absurd (List.cons.inj heq).1 hminus
      · rfl
    simp only [hsplit, List.nil_append, htake, hdrop, hx]

/-! ## Values are read back -/

mutual

/-- The value of the wrapper for a value of JSON. -/
def ofJson : Json → RustJson
  | .null => null
  | .bool b => bool b
  | .num n => num (numberOf n)
  | .str s => str s
  | .arr xs => arr (ofElements xs)
  | .obj ms => obj (ofMembers ms)

def ofElements : List Json → List RustJson
  | [] => []
  | x :: xs => ofJson x :: ofElements xs

def ofMembers : List (String × Json) → List (String × RustJson)
  | [] => []
  | (k, v) :: ms => (k, ofJson v) :: ofMembers ms

end

theorem skipWs_cons {c : Char} (h : Text.isSpace c = false) (cs : List Char) :
    skipWs (c :: cs) = c :: cs :=
  List.dropWhile_cons_of_neg (by rw [h]; exact Bool.false_ne_true)

section

variable {esc : Json.Escape}

/-- A printed value starts neither with white space nor with a closing bracket. -/
theorem print_head (v : Json) :
    ∃ c cs, Json.print esc v = c :: cs ∧ Text.isSpace c = false ∧ c ≠ ']' ∧ c ≠ '}' := by
  cases v with
  | null => exact ⟨'n', _, rfl, by decide, by decide, by decide⟩
  | bool b => cases b <;> exact ⟨_, _, rfl, by decide, by decide, by decide⟩
  | num n =>
    obtain ⟨c, cs, htext, hc⟩ := Json.isNumber_head n.valid
    refine ⟨c, cs, htext, ?_, ?_, ?_⟩
    · rcases hc with rfl | hc
      · decide
      · exact Text.isSpace_of_isDigit hc
    · rintro rfl
      exact absurd hc (by decide)
    · rintro rfl
      exact absurd hc (by decide)
  | str s => exact ⟨'"', _, rfl, by decide, by decide, by decide⟩
  | arr xs => cases xs <;> exact ⟨'[', _, rfl, by decide, by decide, by decide⟩
  | obj ms => rcases ms with _ | ⟨⟨k, v⟩, ms⟩ <;> exact ⟨'{', _, rfl, by decide, by decide, by decide⟩

theorem skipWs_print (v : Json) (rest : List Char) :
    skipWs (Json.print esc v ++ rest) = Json.print esc v ++ rest := by
  obtain ⟨c, cs, hprint, hspace, -, -⟩ := @print_head esc v
  rw [hprint, List.cons_append, skipWs_cons hspace]

/-- The characters of a string are read up to its closing quote. -/
theorem parseStringLoop_print (hread : Read esc.chars) (cs rest : List Char) :
    parseStringLoop (cs.flatMap esc.chars ++ '"' :: rest) = .ok (cs, rest) := by
  induction cs with
  | nil => rw [List.flatMap_nil, List.nil_append, parseStringLoop]
  | cons c cs ih =>
    rw [List.flatMap_cons, List.append_assoc, hread, ih]
    rfl

theorem parseString_print (hread : Read esc.chars) (s : String) (rest : List Char) :
    parseString (Json.printString esc s ++ rest) = .ok (s, rest) := by
  unfold Json.printString parseString
  rw [List.cons_append, List.append_assoc, List.singleton_append]
  simp only [expect, if_true]
  rw [parseStringLoop_print hread]
  show Except.ok (String.ofList s.toList, rest) = _
  rw [String.ofList_toList]

/-- A value whose first character is that of a number. -/
theorem parseValue_number {c : Char} {cs : List Char} (hc : c = '-' ∨ c.isDigit = true)
    (fuel : ℕ) : parseValue (fuel + 1) (c :: cs) = parseNumber (c :: cs) := by
  have hspace : Text.isSpace c = false := by
    rcases hc with rfl | hc
    · decide
    · exact Text.isSpace_of_isDigit hc
  -- no literal or bracket starts like a number
  have hother : ∀ d : Char, d ≠ '-' → d.isDigit = false → c ≠ d := by
    rintro d hminus hdigit rfl
    rcases hc with rfl | hc
    · exact hminus rfl
    · rw [hdigit] at hc
      cases hc
  have ho := hother '{' (by decide) (by decide)
  have hb := hother '[' (by decide) (by decide)
  have hq := hother '"' (by decide) (by decide)
  have ht := hother 't' (by decide) (by decide)
  have hf := hother 'f' (by decide) (by decide)
  have hn := hother 'n' (by decide) (by decide)
  rw [parseValue.eq_def]
  simp only [skipWs_cons hspace]
  split <;> simp_all [or_comm]

theorem parseNull_null (rest : List Char) :
    parseNull ('n' :: 'u' :: 'l' :: 'l' :: rest) = .ok (null, rest) := by
  simp [parseNull, literal]

theorem parseBool_true (rest : List Char) :
    parseBool ('t' :: 'r' :: 'u' :: 'e' :: rest) = .ok (bool true, rest) := by
  simp [parseBool, literal]

theorem parseBool_false (rest : List Char) :
    parseBool ('f' :: 'a' :: 'l' :: 's' :: 'e' :: rest) = .ok (bool false, rest) := by
  simp [parseBool, literal]

mutual

/-- **A printed value is read back**, whatever follows, if it does not go on as a number. -/
theorem parseValue_print (hread : Read esc.chars) (v : Json) (fuel : ℕ) (rest : List Char)
    (hfuel : 3 * (Json.print esc v).length ≤ fuel) (hrest : Json.NumberEnds rest) :
    parseValue fuel (Json.print esc v ++ rest) = .ok (ofJson v, rest) := by
  have hpos := Json.length_print_pos esc v
  obtain ⟨fuel, rfl⟩ : ∃ f, fuel = f + 1 := ⟨fuel - 1, by omega⟩
  match v with
  | .null =>
    rw [Json.print, ofJson, parseValue.eq_def]
    simp only [List.cons_append, skipWs_cons (show Text.isSpace 'n' = false by decide)]
    exact parseNull_null rest
  | .bool true =>
    rw [Json.print, ofJson, parseValue.eq_def]
    simp only [List.cons_append, skipWs_cons (show Text.isSpace 't' = false by decide)]
    exact parseBool_true rest
  | .bool false =>
    rw [Json.print, ofJson, parseValue.eq_def]
    simp only [List.cons_append, skipWs_cons (show Text.isSpace 'f' = false by decide)]
    exact parseBool_false rest
  | .num n =>
    obtain ⟨c, cs, htext, hc⟩ := Json.isNumber_head n.valid
    have hnumber := parseNumber_literal n hrest
    rw [Json.print, ofJson]
    rw [htext, List.cons_append] at hnumber ⊢
    rw [parseValue_number hc, hnumber]
  | .str s =>
    have hstring := parseString_print hread s rest
    rw [Json.print, ofJson]
    unfold Json.printString at hstring ⊢
    rw [List.cons_append] at hstring ⊢
    rw [parseValue.eq_def]
    simp only [skipWs_cons (show Text.isSpace '"' = false by decide)]
    rw [hstring]
    rfl
  | .arr [] =>
    obtain ⟨fuel, rfl⟩ : ∃ f, fuel = f + 1 := ⟨fuel - 1, by omega⟩
    rw [Json.print, ofJson, parseValue.eq_def]
    simp only [List.cons_append, List.nil_append,
      skipWs_cons (show Text.isSpace '[' = false by decide)]
    rw [parseArray, skipWs_cons (by decide)]
    rfl
  | .arr (x :: xs) =>
    rw [Json.print, List.cons_append, List.append_assoc, List.append_assoc, List.singleton_append]
    rw [Json.print, List.length_cons, List.length_append, List.length_append] at hfuel
    obtain ⟨fuel, rfl⟩ : ∃ f, fuel = f + 1 := ⟨fuel - 1, by omega⟩
    have hxs := parseItems_print hread x xs fuel rest (by omega)
    obtain ⟨c, cs, hprint, hspace, hb, -⟩ := @print_head esc x
    rw [parseValue.eq_def]
    simp only [skipWs_cons (show Text.isSpace '[' = false by decide)]
    rw [parseArray]
    rw [hprint, List.cons_append] at hxs ⊢
    rw [skipWs_cons hspace]
    split
    · rename_i heq
      exact absurd (List.cons.inj heq).1 hb
    · rw [hxs, ofJson]
      rfl
  | .obj [] =>
    obtain ⟨fuel, rfl⟩ : ∃ f, fuel = f + 1 := ⟨fuel - 1, by omega⟩
    rw [Json.print, ofJson, parseValue.eq_def]
    simp only [List.cons_append, List.nil_append,
      skipWs_cons (show Text.isSpace '{' = false by decide)]
    rw [parseObject, skipWs_cons (by decide)]
    rfl
  | .obj ((k, w) :: ms) =>
    rw [Json.print, List.cons_append, List.append_assoc, List.cons_append, List.append_assoc,
      List.append_assoc, List.singleton_append]
    rw [Json.print, List.length_cons, List.length_append, List.length_cons, List.length_append,
      List.length_append] at hfuel
    obtain ⟨fuel, rfl⟩ : ∃ f, fuel = f + 1 := ⟨fuel - 1, by omega⟩
    have hms := parseEntries_print hread k w ms fuel rest (by omega)
    rw [parseValue.eq_def]
    simp only [skipWs_cons (show Text.isSpace '{' = false by decide)]
    rw [parseObject]
    unfold Json.printString at hms ⊢
    rw [List.cons_append] at hms ⊢
    rw [skipWs_cons (by decide)]
    split
    · rename_i heq
      exact absurd (List.cons.inj heq).1 (by decide)
    · rw [hms, ofJson]
      rfl
termination_by fuel

theorem parseItems_print (hread : Read esc.chars) (x : Json) (xs : List Json) (fuel : ℕ)
    (rest : List Char)
    (hfuel : 3 * ((Json.print esc x).length + (Json.printElements esc xs).length) + 1 ≤ fuel) :
    parseItems fuel (Json.print esc x ++ (Json.printElements esc xs ++ ']' :: rest)) =
      .ok (ofElements (x :: xs), rest) := by
  obtain ⟨fuel, rfl⟩ : ∃ f, fuel = f + 1 := ⟨fuel - 1, by omega⟩
  rw [parseItems, parseValue_print hread x fuel _ (by omega)
    (Json.numberEnds_printElements esc xs rest)]
  simp only
  match xs with
  | [] => rfl
  | y :: ys =>
    have hpos := Json.length_print_pos esc x
    rw [Json.printElements, List.length_cons, List.length_append] at hfuel
    rw [Json.printElements, List.cons_append, skipWs_cons (by decide)]
    simp only
    rw [List.append_assoc, parseItems_print hread y ys fuel rest (by omega)]
    rfl
termination_by fuel

theorem parseEntries_print (hread : Read esc.chars) (k : String) (v : Json)
    (ms : List (String × Json)) (fuel : ℕ) (rest : List Char)
    (hfuel : 3 * ((Json.print esc v).length + (Json.printMembers esc ms).length) + 1 ≤ fuel) :
    parseEntries fuel (Json.printString esc k ++
      (':' :: (Json.print esc v ++ (Json.printMembers esc ms ++ '}' :: rest)))) =
      .ok (ofMembers ((k, v) :: ms), rest) := by
  obtain ⟨fuel, rfl⟩ : ∃ f, fuel = f + 1 := ⟨fuel - 1, by omega⟩
  have hskip : ∀ more, skipWs (Json.printString esc k ++ more) = Json.printString esc k ++ more :=
    fun more => skipWs_cons (by decide) _
  rw [parseEntries, hskip, parseString_print hread]
  simp only
  rw [skipWs_cons (by decide)]
  simp only [expect, if_true]
  rw [parseValue_print hread v fuel _ (by omega) (Json.numberEnds_printMembers esc ms rest)]
  simp only
  match ms with
  | [] => rfl
  | (k', w) :: ms =>
    have hpos := Json.length_print_pos esc v
    rw [Json.printMembers, List.length_cons, List.length_append, List.length_cons,
      List.length_append] at hfuel
    rw [Json.printMembers, List.cons_append, skipWs_cons (by decide)]
    simp only
    rw [List.append_assoc, List.cons_append, List.append_assoc,
      parseEntries_print hread k' w ms fuel rest (by omega)]
    rfl
termination_by fuel

end

/-- **Everything that is printed is read**: the whole text, to the value it stands for. -/
theorem run_print (hread : Read esc.chars) (v : Json) :
    run (Json.print esc v) = .ok (ofJson v, []) := by
  have h := parseValue_print hread v (3 * (Json.print esc v).length + 3) [] (by omega)
    fun c cs h => absurd h (List.cons_ne_nil c cs).symm
  rwa [List.append_nil] at h

end

/-- The payload of a test, as the judge prints it, hands the wrapper its inputs. -/
theorem getInputs_payload (xs : List Json) :
    (parseJson (Json.print Json.goEscape (.obj [("inputs", .arr xs)]))).map getInputs =
      .ok (ofElements xs) := by
  unfold parseJson
  rw [run_print (read_escapeChar Json.toNat_of_goExtra)]
  simp [Except.map, ofJson, ofMembers, getInputs]

/-! ## The encoders print JSON -/

theorem joined_print (esc : Json.Escape) (xs : List Json) :
    joined (xs.map (Json.print esc)) = Json.print esc (.arr xs) := by
  have hmore : ∀ ys : List Json, (ys.map (Json.print esc)).flatMap (',' :: ·) =
      Json.printElements esc ys := by
    intro ys
    induction ys with
    | nil => rfl
    | cons y ys ih =>
      rw [List.map_cons, List.flatMap_cons, ih, Json.printElements, List.cons_append]
  have hcommas : ∀ (p : List Char) (ps : List (List Char)),
      [','].intercalate (p :: ps) = p ++ ps.flatMap (',' :: ·) := by
    intro p ps
    induction ps generalizing p with
    | nil => simp
    | cons q ps ih =>
      rw [List.intercalate_cons_cons, ih, List.flatMap_cons]
      simp
  cases xs with
  | nil => rfl
  | cons x xs =>
    unfold joined
    rw [List.map_cons, hcommas, hmore, Json.print, List.append_assoc]

/-- An encoder that prints JSON, and the helper that reads the values. -/
structure Encodes {α : Type} (enc : α → List Char) (dec : RustJson → α) (json : α → Json) : Prop where
  print : ∀ a, enc a = Json.print rustEscape (json a)
  read : ∀ a, dec (ofJson (json a)) = a

theorem ofElements_eq (xs : List Json) : ofElements xs = xs.map ofJson := by
  induction xs with
  | nil => rfl
  | cons x xs ih => rw [ofElements, ih, List.map_cons]

/-- The encoder of vectors and its helper. -/
theorem Encodes.vec {α : Type} {enc : α → List Char} {dec : RustJson → α} {json : α → Json}
    (h : Encodes enc dec json) :
    Encodes (vecToJson enc) (jsonToVec dec) fun v => .arr (v.map json) := by
  constructor
  · intro v
    rw [← joined_print, List.map_map]
    unfold vecToJson
    exact congrArg joined (List.map_congr_left fun a _ => h.print a)
  · intro v
    rw [ofJson, ofElements_eq, jsonToVec, List.map_map, List.map_map]
    conv_rhs => rw [← List.map_id v]
    exact List.map_congr_left fun a _ => h.read a

theorem encodes_string : Encodes stringToJson jsonToString .str := by
  constructor
  · intro s
    rfl
  · intro s
    rfl

theorem encodes_bool : Encodes boolToJson jsonToBool .bool := by
  constructor
  · intro b
    cases b with
    | true => simp [boolToJson, Json.print]
    | false => simp [boolToJson, Json.print]
  · intro b
    rfl

theorem asI32_finite {v : Int32} {q : ℚ} (h : Binary64.Representable q) (hq : q = v.toInt) :
    asI32 (.finite q h) = v := by
  have hlow := v.le_toInt
  have hhigh := v.toInt_lt
  subst hq
  rw [asI32, Rat.num_intCast, Rat.den_intCast, Nat.cast_one, Int.tdiv_one]
  have hclamp : max (-2 ^ 31) (min (2 ^ 31 - 1) v.toInt) = v.toInt := by omega
  rw [hclamp, Int32.ofInt_toInt]

/-- A 32-bit integer is a double, which is read from its digits and cast back. -/
theorem asI32_numberOf (v : Int32) : asI32 (numberOf (JsonNumber.ofInt v.toInt)) = v := by
  have hlow := v.le_toInt
  have hhigh := v.toInt_lt
  have hrep : Binary64.Representable (v.toInt.natAbs : ℚ) := by
    refine ⟨v.toInt.natAbs, 0, ?_, by norm_num, by norm_num, by simp⟩
    rw [Nat.abs_cast]
    omega
  have hunsigned : unsignedF64 (Nat.toDigits 10 v.toInt.natAbs) =
      some (.finite v.toInt.natAbs hrep) := by
    unfold unsignedF64
    rw [if_pos (isUnsignedF64_of_isUnsigned (JsonNumber.isUnsigned_toDigits _)),
      JsonNumber.readUnsigned_toDigits, Binary64.ofRat_of_representable hrep]
  unfold numberOf JsonNumber.ofInt Text.intDigits
  simp only
  split_ifs with hneg
  · have hne : (v.toInt.natAbs : ℚ) ≠ 0 := by
      rw [Nat.cast_ne_zero]
      omega
    rw [parseF64, hunsigned, Option.map_some, Option.getD_some, Binary64.neg, if_neg hne]
    refine asI32_finite _ ?_
    rw [Nat.cast_natAbs, abs_of_neg hneg, Int.cast_neg, neg_neg]
  · obtain ⟨c, cs, hdigits, hc⟩ := Json.isUnsigned_head (JsonNumber.isUnsigned_toDigits v.toInt.natAbs)
    have hparse : parseF64 (Nat.toDigits 10 v.toInt.natAbs) =
        unsignedF64 (Nat.toDigits 10 v.toInt.natAbs) := by
      rw [hdigits, parseF64]
      · rintro rest heq
        rw [(List.cons.inj heq).1] at hc
        exact absurd hc (by decide)
      · rintro rest heq
        rw [(List.cons.inj heq).1] at hc
        exact absurd hc (by decide)
    rw [hparse, hunsigned, Option.getD_some]
    refine asI32_finite _ ?_
    rw [Nat.cast_natAbs, abs_of_nonneg (not_lt.mp hneg)]

theorem encodes_i32 : Encodes i32ToJson jsonToI32 fun v => .num (JsonNumber.ofInt v.toInt) := by
  constructor
  · intro v
    rfl
  · intro v
    rw [ofJson, jsonToI32]
    exact asI32_numberOf v

/-! ## Round trips -/

/-- What the encoder prints is parsed to the end, and the helper decodes it. -/
def RoundTrips {α : Type} (enc : α → List Char) (dec : RustJson → α) : Prop :=
  ∀ a, ∃ v, run (enc a) = .ok (v, []) ∧ dec v = a

theorem Encodes.roundTrips {α : Type} {enc : α → List Char} {dec : RustJson → α} {json : α → Json}
    (h : Encodes enc dec json) : RoundTrips enc dec := by
  intro a
  refine ⟨ofJson (json a), ?_, h.read a⟩
  rw [h.print]
  exact run_print read_charToJson (json a)

/-- **The wrapper reads back what it prints**: strings, truth values and 32-bit integers,
alone, in vectors and in matrices.  It also reads the strings that `json.Marshal` prints. -/
theorem json_round_trip :
    (RoundTrips stringToJson jsonToString ∧ RoundTrips vecStringToJson jsonToVecString ∧
      RoundTrips matrixStringToJson jsonToMatrixString) ∧
    (RoundTrips boolToJson jsonToBool ∧ RoundTrips vecBoolToJson jsonToVecBool ∧
      RoundTrips matrixBoolToJson jsonToMatrixBool) ∧
    (RoundTrips i32ToJson jsonToI32 ∧ RoundTrips vecI32ToJson jsonToVecI32 ∧
      RoundTrips matrixI32ToJson jsonToMatrixI32) ∧
    ∀ s : String, run (Json.print Json.goEscape (.str s)) = .ok (str s, []) := by
  refine ⟨⟨?_, ?_, ?_⟩, ⟨?_, ?_, ?_⟩, ⟨?_, ?_, ?_⟩, fun s => ?_⟩
  · exact encodes_string.roundTrips
  · exact encodes_string.vec.roundTrips
  · exact encodes_string.vec.vec.roundTrips
  · exact encodes_bool.roundTrips
  · exact encodes_bool.vec.roundTrips
  · exact encodes_bool.vec.vec.roundTrips
  · exact encodes_i32.roundTrips
  · exact encodes_i32.vec.roundTrips
  · exact encodes_i32.vec.vec.roundTrips
  · exact run_print (read_escapeChar Json.toNat_of_goExtra) (.str s)

end RustJson

end Judge
