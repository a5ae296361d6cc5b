/-
# Starter code

The frontend shows the starter code of a problem (`utils/buildTemplate.js`).  It names the
types of the signature with a mapping of its own (`mapType` of `utils/typeValidator.js`),
the call that the judge compiles with the code is made by `pkg/wrapper/generator.go`.

* `buildTemplate` : the starter code in C++, Go and C.
* `mapType_of_derives` : what the frontend calls a type.
* `starter_matches_iff` : when the signature is the one that the judge calls.
-/
import JudgePlatform.Judge.CallGenerators
import JudgePlatform.Judge.TypeGrammar

namespace Judge

open Bracketed

/-! ## Names of types -/

/-- The languages whose signatures are compared. -/
inductive StarterLanguage where
  | cpp
  | go
  | c
  deriving DecidableEq

/-- The names in `cppMap`; there is none for a kind that the map lacks. -/
def cppMap : TypeNames where
  number := "int"
  string := "string"
  boolean := "bool"
  void := "void"
  linkedList := "ListNode*"
  tree := "TreeNode*"
  graph := "Node*"
  array t := "vector<" ++ t ++ ">"
  matrix t := "vector<vector<" ++ t ++ ">>"
  other := ""

def goMap : TypeNames where
  number := "int"
  string := "string"
  boolean := "bool"
  void := ""
  linkedList := "*ListNode"
  tree := "*TreeNode"
  graph := "*Node"
  array t := "[]" ++ t
  matrix t := "[][]" ++ t
  other := ""

def cMap : TypeNames where
  number := "int"
  string := "const char*"
  boolean := "bool"
  void := "void"
  linkedList := "struct ListNode*"
  tree := "struct TreeNode*"
  graph := "struct Node*"
  array t := t ++ "*"
  matrix t := t ++ "**"
  other := ""

/-- `name || default`: an empty name counts as none. -/
def nameOr (name default : String) : String := if name = "" then default else name

namespace StarterLanguage

/-- `maps[language]`. -/
def map : StarterLanguage → TypeNames
  | cpp => cppMap
  | go => goMap
  | c => cMap

/-- `language === 'cpp' ? 'auto' : 'Object'`. -/
def unnamed : StarterLanguage → String
  | cpp => "auto"
  | go => "Object"
  | c => "Object"

end StarterLanguage

/-- `mapType`.  The element of a generic type without brackets is `undefined`. -/
def mapType (language : StarterLanguage) (typeStr : String) : String :=
  if typeStr = "" then "void"
  else
    match _hmatch : capture jsDot (trim jsSpace typeStr.toList) with
    | none => language.unnamed
    | some (kind, inner) =>
      let element :=
        match inner with
        | none => "void"
        | some inner => mapType language (String.ofList inner)
      if String.ofList kind = "array" then language.map.array element
      else if String.ofList kind = "matrix" then language.map.matrix element
      else nameOr (language.map.plain (String.ofList kind)) language.unnamed
termination_by typeStr.toList.length
decreasing_by
  rw [String.toList_ofList]
  exact (length_lt_of_capture _hmatch).trans_le (length_trim_le jsSpace typeStr.toList)

/-! ## The template -/

structure Uses where
  tree : Bool
  list : Bool
  graph : Bool

/-- `detectUses`. -/
def detectUses (p : Problem) : Uses :=
  let mentions words := (p.parameters.map Parameter.type ++ [p.returnType]).any fun raw =>
    words.any fun word => Text.contains (Text.toLower raw) word
  { tree := mentions ["tree"]
    list := mentions ["linkedlist", "listnode", "list"]
    graph := mentions ["graph"] }

/-- The definitions of the structures in use, as comments. -/
def definitions (uses : Uses) (list tree graph : String) : String :=
  let comment text := "/*\n" ++ text ++ "*/\n\n"
  (if uses.list then comment list else "") ++ (if uses.tree then comment tree else "") ++
    if uses.graph then comment graph else ""

/-- What a parameter is declared as, with its name: one variable, and in C those for the
sizes. -/
def declared (language : StarterLanguage) (param : Parameter) : List (String × String) :=
  let type := mapType language param.type
  match language with
  | .cpp =>
    -- containers are passed by reference
    let isComplex := Text.hasPrefix type "vector" || type = "string"
    [(type ++ if isComplex then "&" else "", param.name)]
  | .go => [(type, param.name)]
  | .c =>
    (type, param.name) ::
      if Text.hasPrefix param.type "array<" then [("int", param.name ++ "Size")]
      else if Text.hasPrefix param.type "matrix<" then
        [("int", param.name ++ "Rows"), ("int*", param.name ++ "Cols")]
      else []

/-- The last parameters in C, for the sizes of the result. -/
def declaredOutputs (language : StarterLanguage) (returnType : String) : List (String × String) :=
  match language with
  | .cpp => []
  | .go => []
  | .c =>
    if Text.hasPrefix returnType "array<" then [("int*", "outputSize")]
    else if Text.hasPrefix returnType "matrix<" then
      [("int*", "outputRows"), ("int**", "outputCols")]
    else []

/-- The parameters of the signature, with their types. -/
def starterParameters (language : StarterLanguage) (p : Problem) : List (String × String) :=
  (p.parameters.map (declared language)).flatten ++ declaredOutputs language p.returnType

/-- The type of the result in the signature. -/
def starterReturn (language : StarterLanguage) (p : Problem) : String :=
  nameOr (mapType language p.returnType)
    (match language with
    | .cpp => "int"
    | .go => ""
    | .c => "int")

/-- `buildTemplate`. -/
def buildTemplate (language : StarterLanguage) (p : Problem) : String :=
  let uses := detectUses p
  let result := starterReturn language p
  let typeFirst := commas ((starterParameters language p).map fun v => v.1 ++ " " ++ v.2)
  let nameFirst := commas ((starterParameters language p).map fun v => v.2 ++ " " ++ v.1)
  match language with
  | .cpp =>
    "#include <iostream>\n#include <vector>\n#include <string>\n#include <algorithm>\n\n" ++
      "using namespace std;\n\n" ++
      definitions { uses with graph := false }
        ("struct ListNode \x7b\n    int val;\n    ListNode *next;\n" ++
          "    ListNode(int x) : val(x), next(nullptr) \x7b\x7d\n\x7d;\n")
        ("struct TreeNode \x7b\n    int val;\n    TreeNode *left;\n    TreeNode *right;\n" ++
          "    TreeNode(int x) : val(x), left(nullptr), right(nullptr) \x7b\x7d\n\x7d;\n") "" ++
      "class Solution \x7b\npublic:\n    " ++ result ++ " " ++ p.functionName ++ "(" ++ typeFirst ++
      ") \x7b\n        // your code here\n    \x7d\n\x7d;"
  | .go =>
    "package main\n\n" ++
      definitions uses "type ListNode struct \x7b Val int; Next *ListNode \x7d\n"
        "type TreeNode struct \x7b Val int; Left *TreeNode; Right *TreeNode \x7d\n"
        "type Node struct \x7b Val int; Neighbors []*Node \x7d\n" ++
      "func " ++ p.functionName ++ "(" ++ nameFirst ++ ") " ++ result ++
      " \x7b\n    // your code here\n    return " ++
      (if result = "string" then "\"\"" else if result = "bool" then "false"
        else if Text.contains result "[]" then "nil" else "0") ++ "\n\x7d"
  | .c =>
    "#include <stdbool.h>\n#include <stddef.h>\n#include <stdlib.h>\n\n" ++
      definitions uses "struct ListNode \x7b\n    int val;\n    struct ListNode *next;\n\x7d;\n"
        ("struct TreeNode \x7b\n    int val;\n    struct TreeNode *left;\n" ++
          "    struct TreeNode *right;\n\x7d;\n")
        ("struct Node \x7b\n    int val;\n    int numNeighbors;\n" ++
          "    struct Node **neighbors;\n\x7d;\n") ++
      result ++ " " ++ p.functionName ++ "(" ++ typeFirst ++
      ") \x7b\n    // your code here\n    return " ++
      (if Text.contains result "*" then "NULL" else "0") ++ ";\n\x7d"

/-! ## Signatures -/

structure Signature where
  parameters : List String
  result : String

/-- The signature of the starter code. -/
def starterSignature (language : StarterLanguage) (p : Problem) : Signature :=
  ⟨(starterParameters language p).map Prod.fst, starterReturn language p⟩

/-- What the judge calls a type. -/
def calledType : StarterLanguage → String → String
  | .cpp => cppType
  | .go => goType
  | .c => cType

/-- The types of what the call that the judge generates passes. -/
def calledParameters (language : StarterLanguage) (p : Problem) : List String :=
  match language with
  | .cpp => p.parameters.map fun param => cppType param.type
  | .go => p.parameters.map fun param => goType param.type
  | .c =>
    -- the variables for the sizes of the output are passed by their addresses
    (cArguments p).map Prod.fst ++
      (sizes "output" (parsedOrZero p.returnType)).map fun v => v.1 ++ "*"

/-- The types that the call passes, and the one that it receives. -/
def judgeSignature (language : StarterLanguage) (p : Problem) : Signature :=
  ⟨calledParameters language p, calledType language p.returnType⟩

/-- Texts that are the same but for prefixes `std::` and marks `&`. -/
inductive SameInCpp : List Char → List Char → Prop
  | nil : SameInCpp [] []
  | cons (c : Char) {a b : List Char} (h : SameInCpp a b) : SameInCpp (c :: a) (c :: b)
  | std {a b : List Char} (h : SameInCpp a b) : SameInCpp ("std::".toList ++ a) b
  | reference {a b : List Char} (h : SameInCpp a b) : SameInCpp a ('&' :: b)

/-- When the name of a type in the call is that in the signature. -/
def SameType (language : StarterLanguage) (called declared : String) : Prop :=
  match language with
  | .cpp => SameInCpp called.toList declared.toList
  | .go => called = declared
  | .c => called = declared

/-- The signature of the starter code is the one that the judge calls. -/
def Matches (language : StarterLanguage) (p : Problem) : Prop :=
  List.Forall₂ (SameType language) (judgeSignature language p).parameters
      (starterSignature language p).parameters ∧
    SameType language (judgeSignature language p).result (starterSignature language p).result

/-! ## What the frontend calls a type -/

/-- The names of types with another for the empty ones. -/
def TypeNames.orElse (L : TypeNames) (default : String) : TypeNames where
  number := nameOr L.number default
  string := nameOr L.string default
  boolean := nameOr L.boolean default
  void := nameOr L.void default
  linkedList := nameOr L.linkedList default
  tree := nameOr L.tree default
  graph := nameOr L.graph default
  array := L.array
  matrix := L.matrix
  other := nameOr L.other default

theorem TypeNames.plain_orElse (L : TypeNames) (default kind : String) :
    (L.orElse default).plain kind = nameOr (L.plain kind) default := by
  unfold TypeNames.plain TypeNames.orElse
  -- the default is taken at the end of each branch
  simp only [apply_ite (fun name => nameOr name default)]

/-- The names that the frontend has in effect. -/
def StarterLanguage.names (language : StarterLanguage) : TypeNames :=
  language.map.orElse language.unnamed

section Mapping

variable {language : StarterLanguage} {s : String} {t : ParsedType}

theorem mapType_of_capture {kind : List Char} {inner : Option (List Char)}
    (h : capture jsDot (trim jsSpace s.toList) = some (kind, inner)) :
    mapType language s =
      let element := inner.elim "void" fun inner => mapType language (String.ofList inner)
      if String.ofList kind = "array" then language.names.array element
      else if String.ofList kind = "matrix" then language.names.matrix element
      else language.names.plain (String.ofList kind) := by
  have hne : s ≠ "" := by
    rintro rfl
    cases h
  rw [mapType, if_neg hne]
  unfold StarterLanguage.names
  rw [TypeNames.plain_orElse]
  split
  next hnone =>
    rw [hnone] at h
    cases h
  next kind' inner' hcapture =>
    obtain ⟨rfl, rfl⟩ := Prod.mk.inj (Option.some.inj (hcapture.symm.trans h))
    cases inner' with
    | none => rfl
    | some inner => rfl

/-- What trimming leaves of a word with its brackets, in the dialect of the frontend. -/
theorem trim_jsSpace {w k r w' : List Char} (hk : IsWord k)
    (hr : ∀ c ∈ (k ++ r).getLast?, IsMark c) (hw : ∀ c ∈ w, Text.isSpace c = true)
    (hw' : ∀ c ∈ w', Text.isSpace c = true) (hnext : nextLine ∉ w ++ (k ++ r) ++ w') :
    trim jsSpace (w ++ (k ++ r) ++ w') = k ++ r := by
  have hspace : ∀ c ∈ w ++ (k ++ r) ++ w', Text.isSpace c = true → jsSpace c = true := by
    intro c hc hspaced
    refine (either_jsSpace c).mpr (fun heq => hnext (heq ▸ hc)) ?_
    exact Bool.or_eq_true_iff.mpr (.inr hspaced)
  refine trim_word (D := javaScript) jsSpace_of_mark hk hr (fun c hc => ?_) fun c hc => ?_
  · exact hspace c (by simp [hc]) (hw c hc)
  · exact hspace c (by simp [hc]) (hw' c hc)

/-- **What the frontend calls a type** that both validators accept depends on the parsed
type. -/
theorem mapType_of_derives (language : StarterLanguage) {s : List Char} (h : Derives t s)
    (hnext : nextLine ∉ s) (hline : ∀ c ∈ inside s, c ∉ lineEnds) :
    mapType language (String.ofList s) = language.names.name t := by
  induction h with
  | @base kind w w' hkind hw hw' =>
    have hword := isWord_kind (List.mem_append_left _ hkind)
    -- white space of the judge is white space of the frontend but for one character
    have htrim : trim jsSpace (w ++ kind.toList ++ w') = kind.toList := by
      have h := trim_jsSpace (r := []) hword ?_ hw hw'
      · rw [List.append_nil] at h
        exact h hnext
      · rw [List.append_nil]
        exact fun c hc => .inl (hword.getLast c hc)
    have hcapture : capture jsDot (trim jsSpace (String.ofList (w ++ kind.toList ++ w')).toList) =
        some (kind.toList, none) := by
      rw [String.toList_ofList, htrim]
      exact capture_eq_some_iff.mpr (.word hword)
    rw [mapType_of_capture hcapture, String.ofList_toList]
    have hplain : ∀ kind ∈ primitiveKinds, kind ≠ "array" ∧ kind ≠ "matrix" := by decide
    obtain ⟨harray, hmatrix⟩ := hplain kind hkind
    rw [if_neg harray, if_neg hmatrix]
    rfl
  | @generic kind t w inner w' hkind hw hw' hdot ht ih =>
    have hword := isWord_kind (List.mem_append_right _ hkind)
    have hnot : ∀ {w : List Char}, (∀ c ∈ w, Text.isSpace c = true) →
        ∀ d, IsMark d → ∀ c ∈ w, c ≠ d := by
      rintro w hw d hd c hc rfl
      exact Bool.noConfusion ((isSpace_of_mark c hd).symm.trans (hw c hc))
    rw [inside_bracketed (hnot hw '<' (.inr (.inl rfl)))
      (fun c hc => ne_of_isLower (hword.2 c hc) rfl) (hnot hw' '>' (.inr (.inr rfl)))] at hline
    have htrim := trim_jsSpace (r := '<' :: (inner ++ ['>'])) hword (fun c hc => by
      rw [← List.cons_append, ← List.append_assoc, List.getLast?_concat] at hc
      exact .inr (.inr (Option.some.inj hc).symm)) hw hw' hnext
    have hinner : ∀ c ∈ inner, jsDot c = true := fun c hc =>
      (jsDot_iff c).mpr ⟨decide_eq_true (hdot c hc), hline c hc⟩
    have hcapture : capture jsDot (trim jsSpace (String.ofList
        (w ++ (kind.toList ++ '<' :: (inner ++ ['>'])) ++ w')).toList) =
        some (kind.toList, some inner) := by
      rw [String.toList_ofList, htrim]
      exact capture_eq_some_iff.mpr (.bracketed hword ht.ne_nil hinner)
    have helement := ih (fun hmem => hnext (by simp [hmem])) fun c hc =>
      hline c (inside_subset inner hc)
    rw [mapType_of_capture hcapture, String.ofList_toList, Option.elim_some, helement]
    rfl

/-- A type text that both validators accept, without white space around it. -/
structure ValidType (s : String) : Prop where
  service : isValidType s = true
  judge : isValid s = true
  trimmed : trim jsSpace s.toList = s.toList

/-- A trimmed text begins with its kind. -/
theorem Derives.eq_kind {s : List Char} (h : Derives t s) (hnext : nextLine ∉ s)
    (htrim : trim jsSpace s = s) :
    t.kind ∈ primitiveKinds ∧ s = t.kind.toList ∨
      t.kind ∈ genericKinds ∧ ∃ rest, s = t.kind.toList ++ '<' :: rest := by
  cases h with
  | @base kind w w' hkind hw hw' =>
    have hword := isWord_kind (List.mem_append_left _ hkind)
    have h := trim_jsSpace (r := []) hword ?_ hw hw'
    · rw [List.append_nil, htrim] at h
      exact .inl ⟨hkind, h hnext⟩
    · rw [List.append_nil]
      exact fun c hc => .inl (hword.getLast c hc)
  | @generic kind t w inner w' hkind hw hw' hdot ht =>
    have hword := isWord_kind (List.mem_append_right _ hkind)
    have h := trim_jsSpace (r := '<' :: (inner ++ ['>'])) hword (fun c hc => by
      rw [← List.cons_append, ← List.append_assoc, List.getLast?_concat] at hc
      exact .inr (.inr (Option.some.inj hc).symm)) hw hw' hnext
    rw [htrim] at h
    exact .inr ⟨hkind, _, h⟩

/-- The frontend looks for the kind of a generic type at the beginning of the text. -/
theorem hasPrefix_iff {kind : String} (hkind : kind ∈ genericKinds)
    (h : t.kind ∈ primitiveKinds ∧ s.toList = t.kind.toList ∨
      t.kind ∈ genericKinds ∧ ∃ rest, s.toList = t.kind.toList ++ '<' :: rest) :
    Text.hasPrefix s (kind ++ "<") = true ↔ t.kind = kind := by
  have hletters := (isWord_kind (List.mem_append_right _ hkind)).2
  have hopen : ∀ rest, ∀ c ∈ ('<' :: rest).head?, c.isLower = false := by
    intro rest c hc
    obtain rfl := Option.some.inj hc
    rfl
  unfold Text.hasPrefix
  rw [List.isPrefixOf_iff_prefix, String.toList_append]
  constructor
  · rintro ⟨after, hafter⟩
    have hform : kind.toList ++ '<' :: after = s.toList := by
      rw [← hafter]
      simp
    have hkept := congrArg (List.takeWhile Char.isLower) hform
    rw [takeWhile_append_of_all hletters (hopen after)] at hkept
    rcases h with ⟨hplain, hs⟩ | ⟨hgeneric, rest, hs⟩
    · -- a base kind has no bracket
      have hword := isWord_kind (List.mem_append_left _ hplain)
      have hmem : '<' ∈ t.kind.toList := by
        rw [← hs, ← hform]
        simp
      exact absurd (hword.2 _ hmem) (by decide)
    · have hword := isWord_kind (List.mem_append_right _ hgeneric)
      rw [hs, takeWhile_append_of_all hword.2 (hopen rest)] at hkept
      exact String.toList_inj.mp hkept.symm
  · rintro rfl
    rcases h with ⟨hplain, -⟩ | ⟨-, rest, hs⟩
    · exact absurd hkind ((mem_kinds _).2.2 hplain)
    · exact ⟨rest, by simp [hs]⟩

/-- What is known of a valid type. -/
theorem ValidType.exists_type (h : ValidType s) :
    ∃ t, parseType s = .ok t ∧ t.WellFormed ∧
      (∀ language, mapType language s = language.names.name t) ∧
      ∀ kind ∈ genericKinds, (Text.hasPrefix s (kind ++ "<") = true ↔ t.kind = kind) := by
  obtain ⟨-, hnext, hline⟩ := (isValidType_iff_strict s).mp h.service
  have hjudge := h.judge
  unfold isValid at hjudge
  cases hs : parseType s with
  | error err =>
    rw [hs] at hjudge
    cases hjudge
  | ok t =>
    have hderives := parseType_eq_ok_iff.mp hs
    refine ⟨t, rfl, hderives.wellFormed, fun language => ?_, fun kind hkind => ?_⟩
    · have hname := mapType_of_derives language hderives hnext hline
      rwa [String.ofList_toList] at hname
    · exact hasPrefix_iff hkind (hderives.eq_kind hnext h.trimmed)

end Mapping

/-! ## The same names -/

/-- Made from `void` by arrays and matrices alone. -/
def ParsedType.exposesVoid : ParsedType → Bool
  | .mk kind none => kind = "void"
  | .mk kind (some element) => (kind = "array" || kind = "matrix") && element.exposesVoid

theorem SameInCpp.refl (a : List Char) : SameInCpp a a := by
  induction a with
  | nil => exact .nil
  | cons c a ih => exact .cons c ih

theorem SameInCpp.append {a b a' b' : List Char} (h : SameInCpp a b) (h' : SameInCpp a' b') :
    SameInCpp (a ++ a') (b ++ b') := by
  induction h with
  | nil => exact h'
  | cons c h ih => exact .cons c ih
  | std h ih =>
    rw [List.append_assoc]
    exact .std ih
  | reference h ih => exact .reference ih

theorem sameInCpp_name {t : ParsedType} (ht : t.WellFormed) :
    SameInCpp (cppTypes.name t).toList (StarterLanguage.cpp.names.name t).toList := by
  induction ht with
  | base hkind =>
    simp only [primitiveKinds, List.mem_cons, List.not_mem_nil, or_false] at hkind
    rcases hkind with rfl | rfl | rfl | rfl
    · exact .refl _
    · exact .std (.refl "string".toList)
    · exact .refl _
    · exact .refl _
  | @generic kind t hkind ht ih =>
    simp only [genericKinds, List.mem_cons, List.not_mem_nil, or_false] at hkind
    have hvector : ∀ {a b : List Char}, SameInCpp a b →
        SameInCpp ("std::vector<".toList ++ a ++ ">".toList) ("vector<".toList ++ b ++ ">".toList) :=
      fun h => .append (.append (.std (.refl "vector<".toList)) h) (.refl _)
    rcases hkind with rfl | rfl | rfl | rfl | rfl
    · have h := hvector ih
      simpa [TypeNames.name, StarterLanguage.names, TypeNames.orElse, StarterLanguage.map, cppTypes,
        cppMap, String.toList_append] using h
    · have h := hvector (hvector ih)
      simpa [TypeNames.name, StarterLanguage.names, TypeNames.orElse, StarterLanguage.map, cppTypes,
        cppMap, String.toList_append] using h
    · exact .refl _
    · exact .refl _
    · exact .refl _

theorem c_name_eq {t : ParsedType} (ht : t.WellFormed) :
    cTypes.name t = StarterLanguage.c.names.name t := by
  induction ht with
  | base hkind =>
    simp only [primitiveKinds, List.mem_cons, List.not_mem_nil, or_false] at hkind
    rcases hkind with rfl | rfl | rfl | rfl <;> rfl
  | generic hkind ht ih =>
    simp only [genericKinds, List.mem_cons, List.not_mem_nil, or_false] at hkind
    rcases hkind with rfl | rfl | rfl | rfl | rfl
    · exact congrArg cTypes.array ih
    · exact congrArg cTypes.matrix ih
    · rfl
    · rfl
    · rfl

/-- The frontend has no name for `void` in Go, and takes the default instead. -/
theorem go_name_eq_iff {t : ParsedType} (ht : t.WellFormed) :
    goTypes.name t = StarterLanguage.go.names.name t ↔ t.exposesVoid = false := by
  induction ht with
  | base hkind =>
    simp only [primitiveKinds, List.mem_cons, List.not_mem_nil, or_false] at hkind
    rcases hkind with rfl | rfl | rfl | rfl <;> decide
  | @generic kind t hkind ht ih =>
    simp only [genericKinds, List.mem_cons, List.not_mem_nil, or_false] at hkind
    rcases hkind with rfl | rfl | rfl | rfl | rfl
    -- both names begin with the same brackets, and go on with the elements
    · exact (String.append_right_inj "[]").trans ih
    · exact (String.append_right_inj "[][]").trans ih
    · exact iff_of_true rfl rfl
    · exact iff_of_true rfl rfl
    · exact iff_of_true rfl rfl

/-- The frontend has a name for each type. -/
theorem names_ne_empty (language : StarterLanguage) (t : ParsedType) :
    language.names.name t ≠ "" := by
  have hplain : ∀ kind, language.names.plain kind ≠ "" := by
    intro kind
    unfold StarterLanguage.names
    rw [TypeNames.plain_orElse]
    unfold nameOr
    split_ifs with h
    · cases language <;> decide
    · exact h
  match t with
  | .mk kind none => exact hplain kind
  | .mk kind (some element) =>
    rw [TypeNames.name]
    split_ifs
    · cases language with
      | cpp => simp [StarterLanguage.names, TypeNames.orElse, StarterLanguage.map, cppMap]
      | go => simp [StarterLanguage.names, TypeNames.orElse, StarterLanguage.map, goMap]
      | c => simp [StarterLanguage.names, TypeNames.orElse, StarterLanguage.map, cMap]
    · cases language with
      | cpp => simp [StarterLanguage.names, TypeNames.orElse, StarterLanguage.map, cppMap]
      | go => simp [StarterLanguage.names, TypeNames.orElse, StarterLanguage.map, goMap]
      | c => simp [StarterLanguage.names, TypeNames.orElse, StarterLanguage.map, cMap]
    · exact hplain kind

section Matching

variable {language : StarterLanguage} {p : Problem} {s : String}

/-- What the judge and the frontend call a valid type. -/
theorem ValidType.sameType_iff (h : ValidType s) (language : StarterLanguage) :
    SameType language (calledType language s) (mapType language s) ↔
      (language = .go → (parsedOrZero s).exposesVoid = false) := by
  obtain ⟨t, hs, ht, hname, -⟩ := h.exists_type
  have hzero : parsedOrZero s = t := by
    unfold parsedOrZero
    rw [hs]
  have hcalled : ∀ map default, typeOr map default s = map t := by
    intro map default
    unfold typeOr
    rw [hs]
  rw [hname, hzero]
  cases language with
  | cpp =>
    refine iff_of_true ?_ fun h => nomatch h
    show SameInCpp (cppType s).toList _
    rw [show cppType s = cppTypes.name t from hcalled _ _]
    exact sameInCpp_name ht
  | go =>
    have hgo : goType s = goTypes.name t := hcalled _ _
    show goType s = _ ↔ _
    rw [hgo, go_name_eq_iff ht]
    exact ⟨fun h _ => h, fun h => h rfl⟩
  | c =>
    refine iff_of_true ?_ fun h => nomatch h
    exact (show cType s = cTypes.name t from hcalled _ _).trans (c_name_eq ht)

theorem ValidType.starterReturn (h : ValidType p.returnType) (language : StarterLanguage) :
    starterReturn language p = mapType language p.returnType := by
  obtain ⟨t, -, -, hname, -⟩ := h.exists_type
  unfold Judge.starterReturn nameOr
  rw [hname, if_neg (names_ne_empty language t)]

/-- The sizes of a parameter in C. -/
theorem ValidType.sizes_eq (h : ValidType s) (name name' : String) :
    (sizes name (parsedOrZero s)).map Prod.fst =
      (if Text.hasPrefix s "array<" then [("int", name' ++ "Size")]
        else if Text.hasPrefix s "matrix<" then
          [("int", name' ++ "Rows"), ("int*", name' ++ "Cols")]
        else []).map Prod.fst := by
  obtain ⟨t, hs, -, -, hprefix⟩ := h.exists_type
  have harray : Text.hasPrefix s "array<" = true ↔ t.kind = "array" := hprefix "array" (by decide)
  have hmatrix : Text.hasPrefix s "matrix<" = true ↔ t.kind = "matrix" := hprefix "matrix" (by decide)
  unfold sizes parsedOrZero
  rw [hs]
  simp only [harray, hmatrix]
  split_ifs <;> rfl

/-- In C a parameter is declared with the types of what the call passes for it. -/
theorem c_declared {param : Parameter} (h : ValidType param.type) (i : ℕ) :
    (cPassed i param.type).map Prod.fst = (declared .c param).map Prod.fst := by
  have htype : cType param.type = mapType .c param.type := (h.sameType_iff .c).mpr fun h => nomatch h
  show cType param.type :: _ = mapType .c param.type :: _
  rw [htype, h.sizes_eq (arg i) param.name]

theorem c_parameters (hparams : ∀ param ∈ p.parameters, ValidType param.type) :
    (cArguments p).map Prod.fst = ((p.parameters.map (declared .c)).flatten).map Prod.fst := by
  unfold cArguments
  rw [List.map_flatten, List.map_flatten, List.map_map]
  congr 1
  apply List.ext_getElem
  · simp
  · intro i hi hi'
    simp only [List.getElem_map, List.getElem_mapIdx, Function.comp_apply]
    exact c_declared (hparams _ (List.getElem_mem _)) i

theorem c_outputs (h : ValidType p.returnType) :
    ((sizes "output" (parsedOrZero p.returnType)).map fun v => v.1 ++ "*") =
      (declaredOutputs .c p.returnType).map Prod.fst := by
  have hmap := congrArg (List.map fun type : String => type ++ "*") (h.sizes_eq "output" "")
  rw [List.map_map] at hmap
  refine hmap.trans ?_
  unfold declaredOutputs
  split_ifs <;> rfl

/-- In C++ and Go each parameter is one variable. -/
theorem starterParameters_single {type : Parameter → String}
    (hdeclared : ∀ param, declared language param = [(type param, param.name)])
    (houtputs : declaredOutputs language p.returnType = []) :
    (starterParameters language p).map Prod.fst = p.parameters.map type := by
  unfold starterParameters
  rw [houtputs, List.append_nil, funext hdeclared, ← List.flatMap_def, List.map_flatMap]
  exact List.map_eq_flatMap.symm

/-- **Where starter code matches the judge**: in C++ and C it always does, in Go where no
type is `void` or made from it by arrays and matrices. -/
theorem starter_matches_iff (language : StarterLanguage) (p : Problem)
    (hparams : ∀ param ∈ p.parameters, ValidType param.type) (hreturn : ValidType p.returnType) :
    Matches language p ↔
      (language = .go → (∀ param ∈ p.parameters, (parsedOrZero param.type).exposesVoid = false) ∧
        (parsedOrZero p.returnType).exposesVoid = false) := by
  have hresult : SameType language (judgeSignature language p).result
      (starterSignature language p).result ↔
      (language = .go → (parsedOrZero p.returnType).exposesVoid = false) := by
    show SameType language (calledType language p.returnType) (starterReturn language p) ↔ _
    rw [hreturn.starterReturn, hreturn.sameType_iff]
  unfold Matches
  rw [hresult, forall_and]
  refine and_congr_left' ?_
  cases language with
  | cpp =>
    -- a name differs by `std::`, and a declaration by a reference mark
    refine iff_of_true ?_ fun h => nomatch h
    rw [show (starterSignature .cpp p).parameters = _ from
      starterParameters_single (fun param => rfl) rfl]
    show List.Forall₂ _ (p.parameters.map fun param => cppType param.type) _
    rw [List.forall₂_map_left_iff, List.forall₂_map_right_iff, List.forall₂_same]
    intro param hparam
    have hname := ((hparams param hparam).sameType_iff .cpp).mpr fun h => nomatch h
    show SameInCpp _ (String.toList _)
    rw [String.toList_append, ← List.append_nil (String.toList _)]
    refine SameInCpp.append hname ?_
    split_ifs
    · exact .reference .nil
    · exact .nil
  | go =>
    rw [show (starterSignature .go p).parameters = _ from
      starterParameters_single (fun param => rfl) rfl]
    show List.Forall₂ _ (p.parameters.map fun param => goType param.type) _ ↔ _
    rw [List.forall₂_map_left_iff, List.forall₂_map_right_iff, List.forall₂_same]
    constructor
    · exact fun h _ param hparam => ((hparams param hparam).sameType_iff .go).mp (h param hparam) rfl
    · exact fun h param hparam =>
        ((hparams param hparam).sameType_iff .go).mpr fun hgo => h hgo param hparam
  | c =>
    refine iff_of_true ?_ fun h => nomatch h
    -- the variables for sizes are declared and passed in the same order
    have hlists : (judgeSignature .c p).parameters = (starterSignature .c p).parameters := by
      show (cArguments p).map Prod.fst ++ _ = List.map Prod.fst (_ ++ _)
      rw [c_parameters hparams, c_outputs hreturn, List.map_append]
    rw [hlists]
    exact List.forall₂_same.mpr fun type _ => rfl

end Matching

theorem parseType_of_mem {kind : String} (h : kind ∈ primitiveKinds) :
    parseType kind = .ok (.mk kind none) :=
  parseType_eq_ok_iff.mpr (ParsedType.WellFormed.base h).derives

/-- A base kind is a valid type. -/
theorem validType_of_mem {kind : String} (h : kind ∈ primitiveKinds) : ValidType kind := by
  have hword := isWord_kind (List.mem_append_left _ h)
  have hnone : ∀ c ∈ ([] : List Char), jsSpace c = true := fun c hc => nomatch hc
  refine ⟨?_, ?_, ?_⟩
  · rw [isValidType_iff]
    have hkind : kinds.plain kind.toList := by
      show String.ofList kind.toList ∈ primitiveKinds
      rwa [String.ofList_toList]
    have hspelling := Spelling.plain (D := javaScript) hkind hnone hnone
    rwa [List.nil_append, List.append_nil] at hspelling
  · unfold isValid
    rw [parseType_of_mem h]
    rfl
  · have htrim := trim_word (D := javaScript) (t := []) jsSpace_of_mark hword (fun c hc => by
      rw [List.append_nil] at hc
      exact .inl (hword.getLast c hc)) hnone hnone
    rwa [List.nil_append, List.append_nil, List.append_nil] at htrim

/-- A function of a number with a number as its result, in Go. -/
theorem starter_matches_numbers :
    Matches .go { functionName := "solve", parameters := [⟨"n", "number"⟩], returnType := "number" } := by
  have hnumber : ValidType "number" := validType_of_mem (by decide)
  have hplain : (parsedOrZero "number").exposesVoid = false := by
    unfold parsedOrZero
    rw [parseType_of_mem (by decide)]
    rfl
  refine (starter_matches_iff .go _ ?_ hnumber).mpr fun _ => ⟨?_, hplain⟩
  · intro param hparam
    rw [List.mem_singleton.mp hparam]
    exact hnumber
  · intro param hparam
    rw [List.mem_singleton.mp hparam]
    exact hplain

/-- A function without a result, in Go: its starter code returns an `Object`. -/
theorem starter_void_differs :
    (∀ s ∈ ["number", "void"], ValidType s) ∧
      ¬Matches .go { functionName := "solve", parameters := [⟨"n", "number"⟩], returnType := "void" } := by
  have hvoid : ValidType "void" := validType_of_mem (by decide)
  refine ⟨fun s hs => validType_of_mem ?_, fun h => ?_⟩
  · rcases List.mem_cons.mp hs with rfl | hs
    · decide
    · rw [List.mem_singleton.mp hs]
      decide
  · have hresult : SameType .go (goType "void") (starterReturn .go _) := h.2
    rw [hvoid.starterReturn] at hresult
    have hplain := (hvoid.sameType_iff .go).mp hresult rfl
    unfold parsedOrZero at hplain
    rw [parseType_of_mem (by decide)] at hplain
    exact absurd hplain (by decide)

end Judge
