/-
# The grammar of types

`ParseType` (`pkg/types/types.go`) reads a type with one regular expression and a recursion
on what is in the angle brackets; `String` writes a type without white space.

* `Derives` : the grammar, with the type that a text is derived as.
* `parseType_eq_ok_iff` : the parser reads exactly what the grammar derives.
* `type_grammar` : the parser and the writer together.
-/
import JudgePlatform.Judge.TypeStrings

namespace Judge

open Bracketed

/-! ## Types -/

/-- `ParsedType.String`. -/
def ParsedType.string : ParsedType → String
  | .mk kind none => kind
  | .mk kind (some element) => kind ++ "<" ++ element.string ++ ">"

/-- Base kinds stand without an element, generic kinds with one. -/
inductive ParsedType.WellFormed : ParsedType → Prop
  | base {kind : String} (hkind : kind ∈ primitiveKinds) : WellFormed (.mk kind none)
  | generic {kind : String} {t : ParsedType} (hkind : kind ∈ genericKinds) (ht : t.WellFormed) :
    WellFormed (.mk kind (some t))

/-- **The grammar**: a base kind, or a generic kind followed at once by a type in angle
brackets, between white space at each level, inside the brackets without line feeds. -/
inductive Derives : ParsedType → List Char → Prop
  | base {kind : String} {w w' : List Char} (hkind : kind ∈ primitiveKinds)
    (hw : ∀ c ∈ w, Text.isSpace c = true) (hw' : ∀ c ∈ w', Text.isSpace c = true) :
    Derives (.mk kind none) (w ++ kind.toList ++ w')
  | generic {kind : String} {t : ParsedType} {w inner w' : List Char} (hkind : kind ∈ genericKinds)
    (hw : ∀ c ∈ w, Text.isSpace c = true) (hw' : ∀ c ∈ w', Text.isSpace c = true)
    (hline : ∀ c ∈ inner, c ≠ '\n') (ht : Derives t inner) :
    Derives (.mk kind (some t)) (w ++ (kind.toList ++ '<' :: (inner ++ ['>'])) ++ w')

/-! ## One level of the parser -/

/-- What the parser makes of the kind and the brackets that it has found. -/
def Reads (kind : String) (inner : Option (List Char)) (t : ParsedType) : Prop :=
  kind ∈ primitiveKinds ∧ inner = none ∧ t = .mk kind none ∨
    kind ∈ genericKinds ∧ ∃ i t', inner = some i ∧ parseType (String.ofList i) = .ok t' ∧
      t = .mk kind (some t')

theorem parseType_step (s : String) (t : ParsedType) :
    parseType s = .ok t ↔ ∃ kind inner,
      capture goDot (trim Text.isSpace s.toList) = some (kind, inner) ∧
        Reads (String.ofList kind) inner t := by
  rw [parseType]
  simp only
  by_cases hs : trim Text.isSpace s.toList = []
  · have hnone : capture goDot (trim Text.isSpace s.toList) = none := by
      rw [hs]
      rfl
    -- a text that is blank is refused by itself, where the regular expression would not match
    rw [if_pos hs, hnone]
    simp
  · rw [if_neg hs]
    split
    next hnone =>
      rw [hnone]
      simp
    next kind inner hcapture =>
      have hreads : (∃ k i, capture goDot (trim Text.isSpace s.toList) = some (k, i) ∧
          Reads (String.ofList k) i t) ↔ Reads (String.ofList kind) inner t := by
        simp only [hcapture, Option.some.injEq, Prod.mk.injEq]
        constructor
        · rintro ⟨k, i, ⟨rfl, rfl⟩, h⟩
          exact h
        · exact fun h => ⟨kind, inner, ⟨rfl, rfl⟩, h⟩
      rw [hreads]
      -- a kind is primitive or generic, and not both
      obtain ⟨-, -, hdisjoint⟩ := mem_kinds (String.ofList kind)
      unfold Reads
      by_cases hplain : String.ofList kind ∈ primitiveKinds
      · have hgeneric := hdisjoint hplain
        rw [if_pos hplain]
        cases inner with
        | none => simp [hplain, hgeneric, eq_comm]
        | some inner => simp [hgeneric, ne_nil_of_capture hcapture]
      · rw [if_neg hplain]
        by_cases hgeneric : String.ofList kind ∈ genericKinds
        · rw [if_pos hgeneric]
          cases inner with
          | none => simp [hplain]
          | some inner =>
            simp only [hplain, hgeneric, ne_nil_of_capture hcapture, if_false]
            cases hinner : parseType (String.ofList inner) with
            | error err => simp [hinner]
            | ok innerType => simp [hinner, eq_comm]
        · rw [if_neg hgeneric]
          simp [hplain, hgeneric]

/-! ## The parser and the grammar -/

theorem isWord_kind {kind : String} (h : kind ∈ primitiveKinds ++ genericKinds) :
    IsWord kind.toList := by
  apply isWord_of_mem
  rwa [String.ofList_toList]

theorem isSpace_of_word {k : List Char} (h : IsWord k) : ∀ c ∈ k, Text.isSpace c = false :=
  fun c hc => isSpace_of_mark c (.inl (h.2 c hc))

theorem Derives.ne_nil {t : ParsedType} {s : List Char} (h : Derives t s) : s ≠ [] := by
  cases h with
  | base hkind hw hw' =>
    have hne := (isWord_kind (List.mem_append_left _ hkind)).1
    simp [hne]
  | generic hkind hw hw' hline ht => simp

/-- What the parser reads, the grammar derives; what is in the brackets is shorter. -/
theorem derives_of_parseType {s : String} {t : ParsedType} (h : parseType s = .ok t) :
    Derives t s.toList := by
  -- the text in the brackets is shorter, whatever was trimmed around it
  induction hn : s.toList.length using Nat.strong_induction_on generalizing s t with
  | _ n ih =>
    obtain ⟨kind, inner, hcapture, hreads⟩ := (parseType_step s t).mp h
    obtain ⟨w, w', hs, hw, hw'⟩ := exists_trim Text.isSpace s.toList
    have hcaptures := capture_eq_some_iff.mp hcapture
    rcases hreads with ⟨hplain, rfl, rfl⟩ | ⟨hgeneric, i, t', rfl, hi, rfl⟩
    · generalize trim Text.isSpace s.toList = u at hs hcaptures
      cases hcaptures with
      | word hk =>
        rw [hs]
        have hbase := Derives.base hplain hw hw'
        rwa [String.toList_ofList] at hbase
    · have hlt : i.length < n := by
        have hinner := length_lt_of_capture hcapture
        have htrim := length_trim_le Text.isSpace s.toList
        omega
      have hderives := ih i.length hlt hi (by rw [String.toList_ofList])
      rw [String.toList_ofList] at hderives
      generalize trim Text.isSpace s.toList = u at hs hcaptures
      cases hcaptures with
      | bracketed hk hne hdot =>
        rw [hs]
        have hline : ∀ c ∈ i, c ≠ '\n' := fun c hc => of_decide_eq_true (hdot c hc)
        have hgen := Derives.generic hgeneric hw hw' hline hderives
        rwa [String.toList_ofList] at hgen

/-- What the grammar derives, the parser reads. -/
theorem parseType_of_derives {t : ParsedType} {s : List Char} (h : Derives t s) :
    parseType (String.ofList s) = .ok t := by
  have hspace : ∀ c, IsMark c → go.space c = false := isSpace_of_mark
  induction h with
  | @base kind w w' hkind hw hw' =>
    have hword := isWord_kind (List.mem_append_left _ hkind)
    have htrim : trim Text.isSpace (w ++ kind.toList ++ w') = kind.toList := by
      have h := trim_word (D := go) (t := []) hspace hword ?_ hw hw'
      · rwa [List.append_nil] at h
      · rw [List.append_nil]
        exact fun c hc => .inl (hword.getLast c hc)
    refine (parseType_step _ _).mpr ⟨kind.toList, none, ?_, .inl ?_⟩
    · rw [String.toList_ofList, htrim]
      exact capture_eq_some_iff.mpr (.word hword)
    · rw [String.ofList_toList]
      exact ⟨hkind, rfl, rfl⟩
  | @generic kind t w inner w' hkind hw hw' hline ht ih =>
    have hword := isWord_kind (List.mem_append_right _ hkind)
    have htrim : trim Text.isSpace (w ++ (kind.toList ++ '<' :: (inner ++ ['>'])) ++ w') =
        kind.toList ++ '<' :: (inner ++ ['>']) := by
      refine trim_word (D := go) hspace hword (fun c hc => .inr (.inr ?_)) hw hw'
      rw [← List.cons_append, ← List.append_assoc, List.getLast?_concat] at hc
      exact (Option.some.inj hc).symm
    have hdot : ∀ c ∈ inner, goDot c = true := fun c hc => decide_eq_true (hline c hc)
    refine (parseType_step _ _).mpr ⟨kind.toList, some inner, ?_, .inr ?_⟩
    · rw [String.toList_ofList, htrim]
      exact capture_eq_some_iff.mpr (.bracketed hword ht.ne_nil hdot)
    · rw [String.ofList_toList]
      exact ⟨hkind, inner, t, rfl, ih, rfl⟩

/-- **The parser reads exactly what the grammar derives**, with its type. -/
theorem parseType_eq_ok_iff {s : String} {t : ParsedType} :
    parseType s = .ok t ↔ Derives t s.toList := by
  constructor
  · exact derives_of_parseType
  · intro h
    have hparse := parseType_of_derives h
    rwa [String.ofList_toList] at hparse

/-! ## The writer -/

theorem Derives.wellFormed {t : ParsedType} {s : List Char} (h : Derives t s) : t.WellFormed := by
  induction h with
  | base hkind hw hw' => exact .base hkind
  | generic hkind hw hw' hline ht ih => exact .generic hkind ih

/-- A kind has no white space. -/
theorem filter_kind {kind : String} (h : kind ∈ primitiveKinds ++ genericKinds) :
    kind.toList.filter (fun c => !Text.isSpace c) = kind.toList := by
  apply List.filter_eq_self.mpr
  intro c hc
  rw [isSpace_of_word (isWord_kind h) c hc]
  rfl

theorem filter_of_space {w : List Char} (hw : ∀ c ∈ w, Text.isSpace c = true) :
    w.filter (fun c => !Text.isSpace c) = [] := by
  apply List.filter_eq_nil_iff.mpr
  intro c hc
  simp [hw c hc]

/-- **A type is written as what its texts are without their white space.** -/
theorem Derives.toList_string {t : ParsedType} {s : List Char} (h : Derives t s) :
    t.string.toList = s.filter fun c => !Text.isSpace c := by
  have hopen : Text.isSpace '<' = false := by decide
  have hclose : Text.isSpace '>' = false := by decide
  induction h with
  | @base kind w w' hkind hw hw' =>
    rw [List.filter_append, List.filter_append, filter_of_space hw, filter_of_space hw',
      filter_kind (List.mem_append_left _ hkind), List.nil_append, List.append_nil]
    rfl
  | @generic kind t w inner w' hkind hw hw' hline ht ih =>
    -- the kind and the brackets stay, and the element is written by induction
    rw [List.filter_append, List.filter_append, filter_of_space hw, filter_of_space hw',
      List.nil_append, List.append_nil, List.filter_append,
      filter_kind (List.mem_append_right _ hkind), List.filter_cons, hopen, List.filter_append,
      ← ih, ParsedType.string]
    simp [hclose]

/-- A well-formed type is written as a text that derives it. -/
theorem ParsedType.WellFormed.derives {t : ParsedType} (h : t.WellFormed) :
    Derives t t.string.toList := by
  have hnone : ∀ c ∈ ([] : List Char), Text.isSpace c = true := fun c hc => nomatch hc
  induction h with
  | @base kind hkind =>
    have hbase := Derives.base hkind hnone hnone
    rwa [List.nil_append, List.append_nil] at hbase
  | @generic kind t hkind ht ih =>
    have hline : ∀ c ∈ t.string.toList, c ≠ '\n' := by
      -- what is written has no white space, and a line feed is white space
      intro c hc
      rw [ih.toList_string, List.mem_filter] at hc
      rintro rfl
      exact absurd hc.2 (by decide)
    have hgeneric := Derives.generic hkind hnone hnone hline ih
    rw [List.nil_append, List.append_nil] at hgeneric
    rw [ParsedType.string]
    simpa using hgeneric

/-- **The type grammar**: a well-formed type is read back from what is written of it; what
the parser accepts is what the grammar derives; and the type of an accepted text is written
as the text without its white space, from which the same type is read. -/
theorem type_grammar :
    (∀ t : ParsedType, t.WellFormed → parseType t.string = .ok t) ∧
      (∀ s, isValid s = true ↔ ∃ t, Derives t s.toList) ∧
      ∀ s t, parseType s = .ok t →
        t.string.toList = (s.toList.filter fun c => !Text.isSpace c) ∧
          parseType t.string = .ok t := by
  refine ⟨fun t ht => parseType_eq_ok_iff.mpr ht.derives, fun s => ?_, fun s t h => ?_⟩
  · unfold isValid
    simp only [← parseType_eq_ok_iff]
    cases parseType s with
    | error err => simp [Except.isOk, Except.toBool]
    | ok t => simp [Except.isOk, Except.toBool]
  · have hderives := derives_of_parseType h
    exact ⟨hderives.toList_string, parseType_eq_ok_iff.mpr hderives.wellFormed.derives⟩

end Judge
