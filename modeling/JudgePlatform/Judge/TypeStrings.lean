/-
# Type strings

A problem names the types of its parameters by texts such as `array<number>`.  The
service that stores problems checks them with `isValidType` (`utils/typeValidator.mjs`),
the judge with `IsValid` (`pkg/types/types.go`).  Both trim the text, match the same
regular expression and go on with what is in the angle brackets, but they run under
different notions of white space and of what `.` matches.

* `isValidType_iff`, `isValid_iff` : each accepts the spellings of its own dialect.
* `validators_agree_iff` : on which texts they agree.
-/
import JudgePlatform.Library.Bracketed
import JudgePlatform.Library.Text

namespace Judge

open Bracketed

/-! ## The service -/

/-- What `String.prototype.trim` takes away. -/
def jsSpace (c : Char) : Bool :=
  c = ' ' ∨ ('\t' ≤ c ∧ c ≤ '\r') ∨ c.toNat = 0xA0 ∨ c.toNat = 0x1680 ∨
    (0x2000 ≤ c.toNat ∧ c.toNat ≤ 0x200A) ∨ c.toNat = 0x2028 ∨ c.toNat = 0x2029 ∨
    c.toNat = 0x202F ∨ c.toNat = 0x205F ∨ c.toNat = 0x3000 ∨ c.toNat = 0xFEFF

/-- What `.` matches in a JavaScript expression without flags. -/
def jsDot (c : Char) : Bool :=
  c ≠ '\n' ∧ c ≠ '\r' ∧ c.toNat ≠ 0x2028 ∧ c.toNat ≠ 0x2029

def VALID_KINDS : List String :=
  ["number", "string", "boolean", "array", "matrix", "tree", "linkedlist", "graph", "void"]

def GENERIC_KINDS : List String := ["array", "matrix", "tree", "linkedlist", "graph"]

/-- `isValidType`.  A group that takes no part in the match is `undefined`, which the
checks read like an empty text. -/
def isValidType (typeStr : String) : Bool :=
  let s := trim jsSpace typeStr.toList
  if s = [] then false
  else
    match _hmatch : capture jsDot s with
    | none => false
    | some (kind, inner) =>
      if String.ofList kind ∉ VALID_KINDS then false
      else if String.ofList kind ∈ GENERIC_KINDS then
        match inner with
        | none => false
        | some inner => if inner = [] then false else isValidType (String.ofList inner)
      else inner.getD [] = []
termination_by typeStr.toList.length
decreasing_by
  rw [String.toList_ofList]
  exact (length_lt_of_capture _hmatch).trans_le (length_trim_le jsSpace typeStr.toList)

/-! ## The judge -/

/-- What `.` matches in a Go expression without flags. -/
def goDot (c : Char) : Bool := c ≠ '\n'

/-- `ParsedType`. -/
inductive ParsedType where
  | mk (kind : String) (element : Option ParsedType)

/-- `NumberKind`, `StringKind`, `BooleanKind` and `VoidKind`. -/
def primitiveKinds : List String := ["number", "string", "boolean", "void"]

/-- `ArrayKind`, `MatrixKind`, `TreeKind`, `LinkedListKind` and `GraphKind`. -/
def genericKinds : List String := ["array", "matrix", "tree", "linkedlist", "graph"]

/-- `ParseType`. -/
def parseType (text : String) : Except String ParsedType :=
  let s := trim Text.isSpace text.toList
  if s = [] then .error "empty type string"
  else
    match _hmatch : capture goDot s with
    | none => .error ("invalid type format: " ++ String.ofList s)
    | some (kind, inner) =>
      let kind := String.ofList kind
      if kind ∈ primitiveKinds then
        if inner.getD [] ≠ [] then
          .error ("primitive type " ++ kind ++ " cannot have generic parameters")
        else .ok (.mk kind none)
      else if kind ∈ genericKinds then
        match inner with
        | none =>
          .error ("type " ++ kind ++ " requires a generic parameter (e.g., " ++ kind ++ "<number>)")
        | some inner =>
          if inner = [] then
            .error ("type " ++ kind ++ " requires a generic parameter (e.g., " ++ kind ++ "<number>)")
          else
            match parseType (String.ofList inner) with
            | .error err => .error ("invalid inner type for " ++ kind ++ ": " ++ err)
            | .ok innerType => .ok (.mk kind (some innerType))
      else .error ("unknown type kind: " ++ kind)
termination_by text.toList.length
decreasing_by
  rw [String.toList_ofList]
  exact (length_lt_of_capture _hmatch).trans_le (length_trim_le Text.isSpace text.toList)

/-- `IsValid`. -/
def isValid (s : String) : Bool := (parseType s).isOk

/-! ## Both as recognizers -/

theorem isWord_of_mem {k : List Char} (h : String.ofList k ∈ primitiveKinds ++ genericKinds) :
    IsWord k := by
  have hwords : ∀ kind ∈ primitiveKinds ++ genericKinds, kind.toList ≠ [] ∧
      ∀ c ∈ kind.toList, c.isLower = true := by
    simp [primitiveKinds, genericKinds]
  have hk := hwords _ h
  rwa [String.toList_ofList] at hk

/-- The kinds of types. -/
def kinds : Vocabulary where
  plain k := String.ofList k ∈ primitiveKinds
  generic k := String.ofList k ∈ genericKinds
  word_of_plain _ h := isWord_of_mem (List.mem_append_left _ h)
  word_of_generic _ h := isWord_of_mem (List.mem_append_right _ h)

def javaScript : Dialect := ⟨jsSpace, jsDot⟩

def go : Dialect := ⟨Text.isSpace, goDot⟩

/-- No kind is both; the service knows the same kinds. -/
theorem mem_kinds (kind : String) :
    (kind ∈ VALID_KINDS ↔ kind ∈ primitiveKinds ∨ kind ∈ genericKinds) ∧
      (kind ∈ GENERIC_KINDS ↔ kind ∈ genericKinds) ∧
      (kind ∈ primitiveKinds → kind ∉ genericKinds) := by
  refine ⟨?_, Iff.rfl, ?_⟩
  · simp only [VALID_KINDS, primitiveKinds, genericKinds, List.mem_cons, List.not_mem_nil]
    tauto
  · have hdisjoint : ∀ kind ∈ primitiveKinds, kind ∉ genericKinds := by decide
    exact hdisjoint kind

theorem isValidType_step (s : String) :
    isValidType s = true ↔
      Step kinds javaScript (fun i => isValidType (String.ofList i) = true) s.toList := by
  rw [isValidType]
  by_cases hs : trim jsSpace s.toList = []
  · have hnone : capture jsDot (trim jsSpace s.toList) = none := by
      rw [hs]
      rfl
    rw [if_pos hs]
    exact iff_of_false Bool.false_ne_true (not_step_of_capture (D := javaScript) hnone)
  · rw [if_neg hs]
    split
    next hnone =>
      exact iff_of_false Bool.false_ne_true (not_step_of_capture (D := javaScript) hnone)
    next kind inner hcapture =>
      rw [step_iff_of_capture (D := javaScript) hcapture]
      obtain ⟨hvalid, hsame, hdisjoint⟩ := mem_kinds (String.ofList kind)
      show _ ↔ String.ofList kind ∈ primitiveKinds ∧ _ ∨ String.ofList kind ∈ genericKinds ∧ _
      by_cases hgeneric : String.ofList kind ∈ genericKinds
      · have hplain : String.ofList kind ∉ primitiveKinds := fun h => hdisjoint h hgeneric
        rw [if_neg (not_not.mpr (hvalid.mpr (.inr hgeneric))), if_pos (hsame.mpr hgeneric)]
        cases inner with
        | none => simp [hplain]
        | some inner => simp [hplain, hgeneric, ne_nil_of_capture hcapture]
      · by_cases hplain : String.ofList kind ∈ primitiveKinds
        · rw [if_neg (not_not.mpr (hvalid.mpr (.inl hplain))),
            if_neg fun h => hgeneric (hsame.mp h)]
          cases inner with
          | none => simp [hplain]
          | some inner => simp [hgeneric, ne_nil_of_capture hcapture]
        · have hinvalid : String.ofList kind ∉ VALID_KINDS := fun h =>
            (hvalid.mp h).elim hplain hgeneric
          rw [if_pos hinvalid]
          simp [hplain, hgeneric]

theorem isValid_step (s : String) :
    isValid s = true ↔
      Step kinds go (fun i => isValid (String.ofList i) = true) s.toList := by
  unfold isValid
  rw [parseType]
  simp only
  by_cases hs : trim Text.isSpace s.toList = []
  · have hnone : capture goDot (trim Text.isSpace s.toList) = none := by
      rw [hs]
      rfl
    rw [if_pos hs]
    exact iff_of_false Bool.false_ne_true (not_step_of_capture (D := go) hnone)
  · rw [if_neg hs]
    split
    next hnone =>
      exact iff_of_false Bool.false_ne_true (not_step_of_capture (D := go) hnone)
    next kind inner hcapture =>
      rw [step_iff_of_capture (D := go) hcapture]
      obtain ⟨-, -, hdisjoint⟩ := mem_kinds (String.ofList kind)
      show _ ↔ String.ofList kind ∈ primitiveKinds ∧ _ ∨ String.ofList kind ∈ genericKinds ∧ _
      by_cases hplain : String.ofList kind ∈ primitiveKinds
      · rw [if_pos hplain]
        cases inner with
        | none => simp [hplain, Except.isOk, Except.toBool]
        | some inner => simp [hdisjoint hplain, ne_nil_of_capture hcapture, Except.isOk, Except.toBool]
      · rw [if_neg hplain]
        by_cases hgeneric : String.ofList kind ∈ genericKinds
        · rw [if_pos hgeneric]
          cases inner with
          | none => simp [hplain, Except.isOk, Except.toBool]
          | some inner =>
            simp only [hplain, hgeneric, ne_nil_of_capture hcapture, if_false]
            cases hinner : parseType (String.ofList inner) with
            | error err => simp [hinner, Except.isOk, Except.toBool]
            | ok innerType => simp [hinner, Except.isOk, Except.toBool]
        · rw [if_neg hgeneric]
          simp [hplain, hgeneric, Except.isOk, Except.toBool]

theorem toNat_of_mark {c : Char} (h : IsMark c) : 0x3C ≤ c.toNat ∧ c.toNat ≤ 0x7A := by
  rcases h with h | rfl | rfl
  · simp only [Char.isLower, Bool.and_eq_true, decide_eq_true_eq, ge_iff_le,
      UInt32.le_iff_toNat_le] at h
    change 97 ≤ c.toNat ∧ c.toNat ≤ 122 at h
    omega
  · decide
  · decide

theorem tab_le_iff (c : Char) : ('\t' ≤ c ∧ c ≤ '\r') ↔ 9 ≤ c.toNat ∧ c.toNat ≤ 13 := by
  simp only [Char.le_def, UInt32.le_iff_toNat_le]
  rfl

theorem eq_iff_toNat (c d : Char) : c = d ↔ c.toNat = d.toNat := by
  constructor
  · rintro rfl
    rfl
  · exact fun h => Char.ext (UInt32.toNat_inj.mp h)

theorem jsSpace_iff (c : Char) : jsSpace c = true ↔ c.toNat = 32 ∨ (9 ≤ c.toNat ∧ c.toNat ≤ 13) ∨
    c.toNat = 0xA0 ∨ c.toNat = 0x1680 ∨ (0x2000 ≤ c.toNat ∧ c.toNat ≤ 0x200A) ∨
    c.toNat = 0x2028 ∨ c.toNat = 0x2029 ∨ c.toNat = 0x202F ∨ c.toNat = 0x205F ∨
    c.toNat = 0x3000 ∨ c.toNat = 0xFEFF := by
  rw [jsSpace, decide_eq_true_eq, tab_le_iff, eq_iff_toNat c ' ']
  rfl

theorem isSpace_iff (c : Char) : Text.isSpace c = true ↔
    c.toNat = 32 ∨ (9 ≤ c.toNat ∧ c.toNat ≤ 13) ∨
    c.toNat = 0x85 ∨ c.toNat = 0xA0 ∨ c.toNat = 0x1680 ∨ (0x2000 ≤ c.toNat ∧ c.toNat ≤ 0x200A) ∨
    c.toNat = 0x2028 ∨ c.toNat = 0x2029 ∨ c.toNat = 0x202F ∨ c.toNat = 0x205F ∨
    c.toNat = 0x3000 := by
  rw [Text.isSpace, decide_eq_true_eq, tab_le_iff, eq_iff_toNat c ' ']
  rfl

theorem jsSpace_of_mark (c : Char) (h : IsMark c) : jsSpace c = false := by
  have hrange := toNat_of_mark h
  rw [Bool.eq_false_iff, Ne, jsSpace_iff]
  omega

theorem isSpace_of_mark (c : Char) (h : IsMark c) : Text.isSpace c = false := by
  have hrange := toNat_of_mark h
  rw [Bool.eq_false_iff, Ne, isSpace_iff]
  omega

/-- **The service accepts the spellings of its dialect.** -/
theorem isValidType_iff (s : String) :
    isValidType s = true ↔ Spelling kinds javaScript s.toList := by
  have hspace : ∀ c, IsMark c → javaScript.space c = false := jsSpace_of_mark
  have hstep : ∀ l, isValidType (String.ofList l) = true ↔
      Step kinds javaScript (fun i => isValidType (String.ofList i) = true) l := by
    intro l
    rw [isValidType_step, String.toList_ofList]
  rw [← spelling_of_step hspace hstep, String.ofList_toList]

/-- **The judge accepts the spellings of its own.** -/
theorem isValid_iff (s : String) : isValid s = true ↔ Spelling kinds go s.toList := by
  have hspace : ∀ c, IsMark c → go.space c = false := isSpace_of_mark
  have hstep : ∀ l, isValid (String.ofList l) = true ↔
      Step kinds go (fun i => isValid (String.ofList i) = true) l := by
    intro l
    rw [isValid_step, String.toList_ofList]
  rw [← spelling_of_step hspace hstep, String.ofList_toList]

/-! ## Where they agree -/

/-- The white space of both, and what `.` matches in either. -/
def either : Dialect := ⟨fun c => jsSpace c || Text.isSpace c, goDot⟩

/-- The byte order mark is white space for the service only. -/
def byteOrderMark : Char := '\uFEFF'

/-- NEXT LINE is white space for the judge only. -/
def nextLine : Char := '\u0085'

/-- What ends a line for the service, though not for the judge. -/
def lineEnds : List Char := ['\r', '\u2028', '\u2029']

theorem either_of_mark (c : Char) (h : IsMark c) : either.space c = false := by
  show (jsSpace c || Text.isSpace c) = false
  rw [jsSpace_of_mark c h, isSpace_of_mark c h]
  rfl

theorem either_jsSpace (c : Char) :
    (either.space c = true → jsSpace c = true) ↔ c ≠ nextLine := by
  have hnext : nextLine.toNat = 0x85 := rfl
  rw [Ne, eq_iff_toNat, hnext]
  show ((jsSpace c || Text.isSpace c) = true → _) ↔ _
  rw [Bool.or_eq_true, jsSpace_iff, isSpace_iff]
  omega

theorem either_isSpace (c : Char) :
    (either.space c = true → Text.isSpace c = true) ↔ c ≠ byteOrderMark := by
  have hmark : byteOrderMark.toNat = 0xFEFF := rfl
  rw [Ne, eq_iff_toNat, hmark]
  show ((jsSpace c || Text.isSpace c) = true → _) ↔ _
  rw [Bool.or_eq_true, jsSpace_iff, isSpace_iff]
  omega

theorem jsDot_iff (c : Char) : jsDot c = true ↔ goDot c = true ∧ c ∉ lineEnds := by
  simp only [jsDot, goDot, lineEnds, List.mem_cons, List.not_mem_nil, or_false, not_or,
    decide_eq_true_eq, eq_iff_toNat c '\u2028', eq_iff_toNat c '\u2029', Ne]
  rfl

/-- Nothing is inside that `.` of the judge does not match. -/
theorem inside_dot {V : Vocabulary} {D : Dialect} {s : List Char}
    (hmark : ∀ c, IsMark c → D.space c = false) (h : Spelling V D s) :
    ∀ c ∈ inside s, D.dot c = true := by
  exact ((Spelling.strict_iff (fun _ h => h) (fun _ h => h) hmark s).mp h).2.2

/-- The service, among the texts that spell a type in either dialect. -/
theorem isValidType_iff_strict (s : String) : isValidType s = true ↔
    Spelling kinds either s.toList ∧ nextLine ∉ s.toList ∧
      ∀ c ∈ inside s.toList, c ∉ lineEnds := by
  have hspace : ∀ c, javaScript.space c = true → either.space c = true := fun c h =>
    Bool.or_eq_true_iff.mpr (.inl h)
  have hdot : ∀ c, javaScript.dot c = true → either.dot c = true := fun c h =>
    ((jsDot_iff c).mp h).1
  rw [isValidType_iff, Spelling.strict_iff hspace hdot either_of_mark]
  refine and_congr_right fun h => and_congr ?_ ?_
  · exact (forall₂_congr fun c _ => either_jsSpace c).trans
      ⟨fun h hmem => h _ hmem rfl, fun h c hc heq => h (heq ▸ hc)⟩
  · exact forall₂_congr fun c hc =>
      (jsDot_iff c).trans (and_iff_right (inside_dot either_of_mark h c hc))

/-- The judge, among the same texts. -/
theorem isValid_iff_strict (s : String) : isValid s = true ↔
    Spelling kinds either s.toList ∧ byteOrderMark ∉ s.toList := by
  have hspace : ∀ c, go.space c = true → either.space c = true := fun c h =>
    Bool.or_eq_true_iff.mpr (.inr h)
  rw [isValid_iff, Spelling.strict_iff hspace (fun _ h => h) either_of_mark]
  refine and_congr_right fun h => ?_
  have hinside : ∀ c ∈ inside s.toList, either.dot c = true := inside_dot either_of_mark h
  change ∀ c ∈ inside s.toList, go.dot c = true at hinside
  rw [and_iff_left hinside]
  exact (forall₂_congr fun c _ => either_isSpace c).trans
    ⟨fun h hmem => h _ hmem rfl, fun h c hc heq => h (heq ▸ hc)⟩

/-- **Where the validators agree**: on every text that spells no type in either dialect,
and on a text that does, if it has a byte order mark just when it has a NEXT LINE or a line
end inside its brackets. -/
theorem validators_agree_iff (s : String) : (isValidType s = true ↔ isValid s = true) ↔
    (Spelling kinds either s.toList →
      (byteOrderMark ∈ s.toList ↔ nextLine ∈ s.toList ∨ ∃ c ∈ inside s.toList, c ∈ lineEnds)) := by
  rw [isValidType_iff_strict, isValid_iff_strict]
  constructor
  · intro h hspelling
    rw [and_iff_right hspelling, and_iff_right hspelling] at h
    rw [← not_iff_not, not_or, ← h]
    push Not
    rfl
  · intro h
    by_cases hspelling : Spelling kinds either s.toList
    · have hmark := h hspelling
      rw [← not_iff_not, not_or] at hmark
      rw [and_iff_right hspelling, and_iff_right hspelling, hmark]
      push Not
      rfl
    · exact ⟨fun h => absurd h.1 hspelling, fun h => absurd h.1 hspelling⟩

/-- A byte order mark before the type: only the service accepts it. -/
theorem byteOrderMark_not_agree :
    ¬(isValidType "\uFEFFnumber" = true ↔ isValid "\uFEFFnumber" = true) := by
  have htext : "\uFEFFnumber".toList = [byteOrderMark] ++ "number".toList ++ [] := by
    simp [byteOrderMark]
  have hspelling : Spelling kinds either ([byteOrderMark] ++ "number".toList ++ []) := by
    refine .plain ?_ ?_ (fun c hc => nomatch hc)
    · show String.ofList "number".toList ∈ primitiveKinds
      simp [primitiveKinds]
    · intro c hc
      rw [List.mem_singleton.mp hc]
      rfl
  rw [isValidType_iff_strict, isValid_iff_strict, htext]
  intro h
  refine (h.mp ⟨hspelling, ?_, ?_⟩).2 ?_
  · simp [byteOrderMark, nextLine]
  · rw [inside_of_not_mem]
    · exact fun _ hc => nomatch hc
    · simp [byteOrderMark]
  · simp

end Judge
