/-
# Types in generated calls

The builders of calls take the types of a problem as texts.  Most of what they emit depends
on the parsed type, but those of C++ and Go look for the texts of three types themselves,
and all four for the text `void`; and the builder of C picks the helpers for an array or a
matrix by the kind of its elements alone.

* `same_code_iff` : when two texts of one type are as good as each other.
* `c_call_typed_iff` : when the declared types of a call in C are those of its helpers.
-/
import JudgePlatform.Judge.CallGenerators
import JudgePlatform.Judge.TypeGrammar

namespace Judge

/-! ## Two texts of one type -/

section Spellings

variable {p : Problem} {before after : List Parameter} {name s s' funcName : String}
  {t : ParsedType}

/-- A problem with its parameters replaced. -/
def Problem.withParameters (p : Problem) (parameters : List Parameter) : Problem :=
  { p with parameters }

def Problem.withReturnType (p : Problem) (returnType : String) : Problem := { p with returnType }

theorem eachParameter_mid (p : Problem) (before after : List Parameter) (name : String)
    (code : ℕ → String → String) :
    ∃ first last, ∀ s, eachParameter (p.withParameters (before ++ ⟨name, s⟩ :: after)) code =
      first ++ code before.length s ++ last := by
  refine ⟨String.join (before.mapIdx fun i param => code i param.type),
    String.join (after.mapIdx fun i param => code (i + 1 + before.length) param.type), fun s => ?_⟩
  show String.join ((before ++ ⟨name, s⟩ :: after).mapIdx _) = _
  rw [List.mapIdx_append, List.mapIdx_cons, String.join_append, String.join_cons, Nat.zero_add,
    String.append_assoc]

/-- The texts that the builders of C++ and Go look for. -/
def namedStructures : List String := ["linkedlist<number>", "tree<number>", "graph<number>"]

theorem structureHelper_eq_none_iff (type ofList ofTree ofGraph : String) :
    structureHelper type ofList ofTree ofGraph = none ↔ type ∉ namedStructures := by
  unfold structureHelper namedStructures
  split_ifs with h₁ h₂ h₃ <;> simp_all

/-- A text that the builders look for is what its type is written as. -/
theorem eq_string_of_mem (h : s ∈ namedStructures) (hs : parseType s = .ok t) : s = t.string := by
  have hnumber : (ParsedType.mk "number" none).WellFormed := .base (by decide)
  have hwritten : ∀ kind ∈ genericKinds, s = kind ++ "<" ++ "number" ++ ">" → s = t.string := by
    intro kind hkind heq
    have hparse := parseType_eq_ok_iff.mpr (ParsedType.WellFormed.generic hkind hnumber).derives
    have hsame : s = (ParsedType.mk kind (some (.mk "number" none))).string := heq
    rw [← hsame, hs] at hparse
    rw [Except.ok.inj hparse]
    exact hsame
  rcases List.mem_cons.mp h with rfl | h
  · exact hwritten "linkedlist" (by decide) (by decide)
  · rcases List.mem_cons.mp h with rfl | h
    · exact hwritten "tree" (by decide) (by decide)
    · obtain rfl := List.mem_singleton.mp h
      exact hwritten "graph" (by decide) (by decide)

/-- The names of types depend on the parsed type. -/
theorem typeOr_congr (h : parseType s = parseType s') (map : ParsedType → String)
    (default : String) : typeOr map default s = typeOr map default s' := by
  unfold typeOr
  rw [h]

theorem parsedOrZero_congr (h : parseType s = parseType s') : parsedOrZero s = parsedOrZero s' := by
  unfold parsedOrZero
  rw [h]

theorem structureHelper_congr (hs : parseType s = .ok t) (hs' : parseType s' = .ok t)
    (h : s ∈ namedStructures ↔ s' ∈ namedStructures) (ofList ofTree ofGraph : String) :
    structureHelper s ofList ofTree ofGraph = structureHelper s' ofList ofTree ofGraph := by
  by_cases hmem : s ∈ namedStructures
  · rw [eq_string_of_mem hmem hs, eq_string_of_mem (h.mp hmem) hs']
  · have hmem' : s' ∉ namedStructures := fun hs => hmem (h.mpr hs)
    rw [(structureHelper_eq_none_iff s _ _ _).mpr hmem,
      (structureHelper_eq_none_iff s' _ _ _).mpr hmem']

/-- What a helper decodes is not decoded as by default. -/
theorem cppDeclare_ne (i : ℕ) (hparse : parseType s = parseType s') (h : s ∈ namedStructures)
    (h' : s' ∉ namedStructures) : cppDeclare i s ≠ cppDeclare i s' := by
  intro heq
  unfold cppDeclare at heq
  rw [show cppType s = cppType s' from typeOr_congr hparse _ _, String.append_right_inj,
    (structureHelper_eq_none_iff s' _ _ _).mpr h'] at heq
  have hhead := congrArg (fun u => u.toList.head?) heq
  unfold structureHelper at hhead
  simp only [namedStructures, List.mem_cons, List.not_mem_nil, or_false] at h
  rcases h with rfl | rfl | rfl
  · simp [String.toList_append] at hhead
  · simp [String.toList_append] at hhead
  · simp [String.toList_append] at hhead

/-- The four builders emit the same code. -/
def SameCode (p p' : Problem) (funcName : String) : Prop :=
  buildCppCall p funcName = buildCppCall p' funcName ∧
    buildGoCall p funcName = buildGoCall p' funcName ∧
    buildCCall p funcName = buildCCall p' funcName ∧
    buildRustCall p funcName = buildRustCall p' funcName

/-- What the builders take from the parameters. -/
structure SameParameters (p p' : Problem) : Prop where
  length : p.parameters.length = p'.parameters.length
  cpp : eachParameter p cppDeclare = eachParameter p' cppDeclare
  go : eachParameter p goDeclare = eachParameter p' goDeclare
  c : eachParameter p cDeclare = eachParameter p' cDeclare
  cPassed : cArguments p = cArguments p'
  first : (p.parameters.head?.map fun param => parsedOrZero param.type) =
    p'.parameters.head?.map fun param => parsedOrZero param.type
  rust : (p.parameters.mapM fun param => rustTypeHelpers param.type) =
    p'.parameters.mapM fun param => rustTypeHelpers param.type

theorem rustTypeHelpers_congr (h : parseType s = parseType s') :
    rustTypeHelpers s = rustTypeHelpers s' := by
  unfold rustTypeHelpers
  rw [h]

theorem argNames_congr {p p' : Problem} (h : p.parameters.length = p'.parameters.length) :
    argNames p = argNames p' := by
  unfold argNames
  rw [h]

theorem SameParameters.sameCode {p' : Problem} (h : SameParameters p p')
    (hreturn : p.returnType = p'.returnType) : SameCode p p' funcName := by
  refine ⟨?_, ?_, ?_, ?_⟩
  · unfold buildCppCall
    rw [h.cpp, h.length, hreturn, argNames_congr h.length]
  · unfold buildGoCall
    rw [h.go, h.length, hreturn, argNames_congr h.length]
  · have hfirst := h.first
    unfold buildCCall jsonAddOutput
    rw [h.c, h.cPassed, hreturn]
    cases hp : p.parameters with
    | nil =>
      cases hp' : p'.parameters with
      | nil => rfl
      | cons param' rest' => simp [hp, hp'] at hfirst
    | cons param rest =>
      cases hp' : p'.parameters with
      | nil => simp [hp, hp'] at hfirst
      | cons param' rest' =>
        rw [hp, hp'] at hfirst
        have hzero : parsedOrZero param.type = parsedOrZero param'.type := by simpa using hfirst
        simp only [hzero]
  · unfold buildRustCall rustCall
    rw [h.rust, hreturn]

/-- A parameter spelled in two ways, between the others. -/
theorem sameParameters_mid (hs : parseType s = .ok t) (hs' : parseType s' = .ok t)
    (h : s ∈ namedStructures ↔ s' ∈ namedStructures) :
    SameParameters (p.withParameters (before ++ ⟨name, s⟩ :: after))
      (p.withParameters (before ++ ⟨name, s'⟩ :: after)) := by
  have hparse : parseType s = parseType s' := hs.trans hs'.symm
  have hzero := parsedOrZero_congr hparse
  have hc : ∀ i, cDeclare i s = cDeclare i s' := by
    intro i
    unfold cDeclare
    rw [hzero, show cType s = cType s' from typeOr_congr hparse _ _]
  have hpassed : ∀ i, cPassed i s = cPassed i s' := by
    intro i
    unfold cPassed
    rw [hzero, show cType s = cType s' from typeOr_congr hparse _ _]
  have hrust := rustTypeHelpers_congr hparse
  have heach : ∀ code : ℕ → String → String, (∀ i, code i s = code i s') →
      eachParameter (p.withParameters (before ++ ⟨name, s⟩ :: after)) code =
        eachParameter (p.withParameters (before ++ ⟨name, s'⟩ :: after)) code := by
    intro code hcode
    obtain ⟨first, last, hmid⟩ := eachParameter_mid p before after name code
    rw [hmid, hmid, hcode]
  refine ⟨?_, heach _ fun i => ?_, heach _ fun i => ?_, heach _ hc, ?_, ?_, ?_⟩
  · simp [Problem.withParameters]
  · unfold cppDeclare
    rw [structureHelper_congr hs hs' h, show cppType s = cppType s' from typeOr_congr hparse _ _]
  · unfold goDeclare
    rw [structureHelper_congr hs hs' h, show goType s = goType s' from typeOr_congr hparse _ _]
  · unfold cArguments Problem.withParameters
    simp only [List.mapIdx_append, List.mapIdx_cons, hpassed]
  · cases before with
    | nil => simp [Problem.withParameters, hzero]
    | cons param before => rfl
  · simp only [Problem.withParameters, List.mapM_append, List.mapM_cons, hrust]

/-- Where the texts are not `void` themselves, the builders look at the parsed type. -/
theorem sameCode_withReturnType (hparse : parseType s = parseType s')
    (h : s = "void" ↔ s' = "void") : SameCode (p.withReturnType s) (p.withReturnType s') funcName := by
  by_cases hvoid : s = "void"
  · rw [hvoid, h.mp hvoid]
    exact ⟨rfl, rfl, rfl, rfl⟩
  · have hvoid' : s' ≠ "void" := fun hs => hvoid (h.mpr hs)
    have hcpp : cppType s = cppType s' := typeOr_congr hparse _ _
    have hc : cType s = cType s' := typeOr_congr hparse _ _
    have hrust := rustTypeHelpers_congr hparse
    unfold Problem.withReturnType
    refine ⟨?_, ?_, ?_, ?_⟩
    · unfold buildCppCall
      simp only [if_neg hvoid, if_neg hvoid', hcpp]
      rfl
    · unfold buildGoCall
      simp only [if_neg hvoid, if_neg hvoid']
      rfl
    · unfold buildCCall jsonAddOutput
      simp only [if_neg hvoid, if_neg hvoid', hc, parsedOrZero_congr hparse]
      rfl
    · unfold buildRustCall rustCall
      simp only [if_neg hvoid, if_neg hvoid', hrust]

/-- A call whose result is ignored is not one whose result is kept. -/
theorem buildCppCall_void_ne (hparse : parseType "void" = parseType s) (h : s ≠ "void") :
    buildCppCall (p.withReturnType "void") funcName ≠ buildCppCall (p.withReturnType s) funcName := by
  have hname : cppType s = "void" := by
    have hvoid : parseType "void" = .ok (.mk "void" none) :=
      parseType_eq_ok_iff.mpr (ParsedType.WellFormed.base (by decide)).derives
    unfold cppType typeOr
    rw [← hparse, hvoid]
    rfl
  intro heq
  unfold buildCppCall Problem.withReturnType at heq
  simp only [if_neg h, hname, String.append_assoc] at heq
  -- behind the parameters, one call begins with spaces and the other with the type
  have hrest := String.append_right_inj _ |>.mp heq
  simp only [if_true, String.append_assoc] at hrest
  have hhead := congrArg (fun u => u.toList.head?) (String.append_right_inj _ |>.mp hrest)
  simp [String.toList_append] at hhead

/-- **Where the code depends on the types only through their meaning**: of two texts of one
type in the place of a parameter both or none must be texts that the builders look for, and
in the place of the result both or none must be `void`. -/
theorem same_code_iff (p : Problem) (before after : List Parameter) (name funcName : String)
    {s s' : String} {t : ParsedType} (hs : parseType s = .ok t) (hs' : parseType s' = .ok t) :
    (SameCode (p.withParameters (before ++ ⟨name, s⟩ :: after))
        (p.withParameters (before ++ ⟨name, s'⟩ :: after)) funcName ↔
      (s ∈ namedStructures ↔ s' ∈ namedStructures)) ∧
    (SameCode (p.withReturnType s) (p.withReturnType s') funcName ↔
      (s = "void" ↔ s' = "void")) := by
  have hparse : parseType s = parseType s' := hs.trans hs'.symm
  constructor
  · constructor
    · rintro ⟨hcpp, -, -, -⟩
      unfold buildCppCall argNames at hcpp
      obtain ⟨first, last, hmid⟩ := eachParameter_mid p before after name cppDeclare
      rw [hmid, hmid] at hcpp
      simp only [Problem.withParameters, List.length_append, List.length_cons,
        String.append_assoc] at hcpp
      -- the other parameters take the same room on both sides
      have hdeclare : cppDeclare before.length s = cppDeclare before.length s' := by
        have hrest := String.append_right_inj _ |>.mp hcpp
        exact String.append_left_inj _ |>.mp hrest
      constructor
      · intro hmem
        by_contra hmem'
        exact cppDeclare_ne _ hparse hmem hmem' hdeclare
      · intro hmem'
        by_contra hmem
        exact cppDeclare_ne _ hparse.symm hmem' hmem hdeclare.symm
    · exact fun h => (sameParameters_mid hs hs' h).sameCode rfl
  · constructor
    · rintro ⟨hcpp, -, -, -⟩
      constructor
      · rintro rfl
        by_contra h
        exact buildCppCall_void_ne hparse h hcpp
      · rintro rfl
        by_contra h
        exact buildCppCall_void_ne hparse.symm h hcpp.symm
    · exact sameCode_withReturnType hparse

end Spellings

/-- `array<number>` and its like, with white space in the brackets. -/
theorem parseType_spaced {kind s : String} (hkind : kind ∈ genericKinds)
    (hs : s.toList = kind.toList ++ "< number >".toList) :
    parseType s = .ok (.mk kind (some (.mk "number" none))) := by
  have hspace : ∀ c ∈ [' '], Text.isSpace c = true := by
    intro c hc
    rw [List.mem_singleton.mp hc]
    rfl
  have hnone : ∀ c ∈ ([] : List Char), Text.isSpace c = true := fun c hc => nomatch hc
  have hnumber : Derives (.mk "number" none) ([' '] ++ "number".toList ++ [' ']) :=
    .base (by decide) hspace hspace
  have hspaced := Derives.generic hkind hnone hnone (by simp) hnumber
  rw [List.nil_append, List.append_nil] at hspaced
  rw [parseType_eq_ok_iff, hs]
  exact hspaced

/-- A type as it is written. -/
theorem parseType_written {s : String} {t : ParsedType} (ht : t.WellFormed) (hs : s = t.string) :
    parseType s = .ok t := by
  rw [hs]
  exact parseType_eq_ok_iff.mpr ht.derives

theorem wellFormed_generic {kind element : String} (hkind : kind ∈ genericKinds)
    (helement : element ∈ primitiveKinds) :
    (ParsedType.mk kind (some (.mk element none))).WellFormed :=
  .generic hkind (.base helement)

/-- Arrays of numbers, with and without white space. -/
theorem same_code_array :
    SameCode (Problem.withParameters {} ([] ++ ⟨"nums", "array<number>"⟩ :: []))
      (Problem.withParameters {} ([] ++ ⟨"nums", "array< number >"⟩ :: [])) "solve" :=
  (same_code_iff {} [] [] "nums" "solve"
    (parseType_written (@wellFormed_generic "array" "number" (by decide) (by decide)) (by decide))
    (@parseType_spaced "array" _ (by decide) (by decide +kernel))).1.mpr (by decide)

/-- A linked list of numbers, with and without white space. -/
theorem spaced_linkedlist_differs :
    parseType "linkedlist<number>" = parseType "linkedlist< number >" ∧
      ¬SameCode { parameters := [⟨"head", "linkedlist<number>"⟩] }
        { parameters := [⟨"head", "linkedlist< number >"⟩] } "solve" := by
  have hsame : parseType "linkedlist<number>" = parseType "linkedlist< number >" :=
    (parseType_written (@wellFormed_generic "linkedlist" "number" (by decide) (by decide))
      (by decide)).trans
      (@parseType_spaced "linkedlist" _ (by decide) (by decide +kernel)).symm
  refine ⟨hsame, fun h => ?_⟩
  have hcpp := h.1
  have hdeclare : cppDeclare 0 "linkedlist<number>" = cppDeclare 0 "linkedlist< number >" := by
    unfold buildCppCall at hcpp
    simp only [eachParameter, List.mapIdx_cons, List.mapIdx_nil, String.join_cons,
      String.append_assoc] at hcpp
    exact String.append_left_inj _ |>.mp hcpp
  exact cppDeclare_ne 0 hsame (by decide) (by decide) hdeclare

/-! ## Types of a call in C -/

section Typed

/-- The helpers that decode an argument, with what they return: three of json-c, then those
of `c_wrapper.tpl`. -/
def decoders : List (String × String) :=
  [("json_object_get_int", "int32_t"), ("json_object_get_string", "const char*"),
    ("json_object_get_boolean", "json_bool"), ("array_from_json", "int*"),
    ("bool_array_from_json", "bool*"), ("string_array_from_json", "const char**"),
    ("matrix_from_json", "int**"), ("bool_matrix_from_json", "bool**"),
    ("string_matrix_from_json", "const char***"), ("list_from_json", "struct ListNode*"),
    ("tree_from_json", "struct TreeNode*"), ("graph_from_json", "struct Node*")]

/-- The helpers that encode the output, with the types of their first parameters. -/
def encoders : List (String × String) :=
  [("json_object_new_int", "int32_t"), ("json_object_new_string", "const char*"),
    ("json_object_new_boolean", "json_bool"), ("array_to_json", "int*"),
    ("bool_array_to_json", "bool*"), ("string_array_to_json", "const char**"),
    ("matrix_to_json", "int**"), ("bool_matrix_to_json", "bool**"),
    ("string_matrix_to_json", "const char***"), ("list_to_json", "struct ListNode*"),
    ("tree_to_json", "struct TreeNode*"), ("graph_to_json", "struct Node*")]

/-- The types of json-c for numbers and truth values count as those of the language. -/
def plainType (type : String) : String :=
  if type = "int32_t" then "int" else if type = "json_bool" then "bool" else type

/-- The declared type of an argument is what the helper selected for it returns. -/
def ArgumentTyped (s : String) : Prop :=
  ∃ helper ∈ cDecoder (parsedOrZero s), (decoders.lookup helper).map plainType = some (cType s)

/-- The declared type of the result is what the helper selected for it takes, if there is one. -/
def ResultTyped (s : String) : Prop :=
  ∀ helper ∈ cEncoder (parsedOrZero s), (encoders.lookup helper).map plainType = some (cType s)

/-- Arrays and matrices are of numbers, strings or booleans. -/
def Flat (t : ParsedType) : Prop :=
  t.kind = "array" ∨ t.kind = "matrix" →
    ∃ e ∈ t.element, e.kind = "number" ∨ e.kind = "string" ∨ e.kind = "boolean"

theorem mapCType_generic_ne {kind : String} (hkind : kind ∈ genericKinds) (e : ParsedType) :
    mapCType (.mk kind (some e)) ≠ "int" := by
  intro h
  have hlast := congrArg (fun u => u.toList.getLast?) h
  simp only [genericKinds, List.mem_cons, List.not_mem_nil, or_false] at hkind
  unfold mapCType TypeNames.name at hlast
  rcases hkind with rfl | rfl | rfl | rfl | rfl
  · simp [cTypes, String.toList_append] at hlast
  · simp [cTypes, String.toList_append] at hlast
  · simp [cTypes, TypeNames.plain] at hlast
  · simp [cTypes, TypeNames.plain] at hlast
  · simp [cTypes, TypeNames.plain] at hlast

/-- Numbers alone are declared as `int`. -/
theorem mapCType_eq_int_iff {e : ParsedType} (he : e.WellFormed) :
    mapCType e = "int" ↔ e.kind = "number" := by
  cases he with
  | base hkind =>
    simp only [primitiveKinds, List.mem_cons, List.not_mem_nil, or_false] at hkind
    rcases hkind with rfl | rfl | rfl | rfl <;> decide
  | generic hkind ht =>
    constructor
    · exact fun h => absurd h (mapCType_generic_ne hkind _)
    · rintro rfl
      exact absurd hkind (by decide)

/-- A base kind stands alone. -/
theorem ParsedType.WellFormed.eq_mk_none {e : ParsedType} (he : e.WellFormed)
    (h : e.kind ∈ primitiveKinds) : e = .mk e.kind none := by
  cases he with
  | base hkind => rfl
  | generic hkind ht => exact absurd hkind ((mem_kinds _).2.2 h)

/-- The helper for an array or a matrix is right where it is for numbers, strings and
booleans, which it is selected by; by default it is the one for numbers. -/
theorem elementHelper_typed {table : List (String × String)} {helper kind : String}
    {e : ParsedType} (stars : String) (he : e.WellFormed)
    (hnumber : (table.lookup helper).map plainType = some ("int" ++ stars))
    (hstring : (table.lookup ("string_" ++ helper)).map plainType = some ("const char*" ++ stars))
    (hboolean : (table.lookup ("bool_" ++ helper)).map plainType = some ("bool" ++ stars)) :
    (table.lookup (elementHelper helper (.mk kind (some e)))).map plainType =
        some (mapCType e ++ stars) ↔
      e.kind = "number" ∨ e.kind = "string" ∨ e.kind = "boolean" := by
  show (table.lookup (if e.kind = "string" then _ else if e.kind = "boolean" then _ else _)).map
    plainType = _ ↔ _
  by_cases hs : e.kind = "string"
  · have hname : mapCType e = "const char*" := by
      rw [he.eq_mk_none (by rw [hs]; decide), hs]
      decide
    rw [if_pos hs, hstring, hname]
    simp [hs]
  · by_cases hb : e.kind = "boolean"
    · have hname : mapCType e = "bool" := by
        rw [he.eq_mk_none (by rw [hb]; decide), hb]
        decide
      rw [if_neg hs, if_pos hb, hboolean, hname]
      simp [hb]
    · have hplain : "int" = mapCType e ↔ e.kind = "number" := eq_comm.trans (mapCType_eq_int_iff he)
      rw [if_neg hs, if_neg hb, hnumber, Option.some.injEq, String.append_left_inj, hplain]
      simp [hs, hb]

/-- **Where a call in C is well typed**: the declared type of an argument is that of its
helper, and the declared type of the result is that of its, where arrays and matrices are of
numbers, strings or booleans. -/
theorem c_call_typed_iff {s : String} {t : ParsedType} (h : parseType s = .ok t) :
    (t.kind ≠ "void" → (ArgumentTyped s ↔ Flat t)) ∧ (ResultTyped s ↔ Flat t) := by
  have hzero : parsedOrZero s = t := by
    unfold parsedOrZero
    rw [h]
  have hname : cType s = mapCType t := by
    unfold cType typeOr
    rw [h]
  have hdecoded : ∀ helper, cDecoder t = some helper →
      (ArgumentTyped s ↔ (decoders.lookup helper).map plainType = some (mapCType t)) := by
    intro helper hhelper
    unfold ArgumentTyped
    rw [hzero, hname, hhelper]
    simp
  have hencoded : ∀ helper, cEncoder t = some helper →
      (ResultTyped s ↔ (encoders.lookup helper).map plainType = some (mapCType t)) := by
    intro helper hhelper
    unfold ResultTyped
    rw [hzero, hname, hhelper]
    simp
  have hother : ¬(t.kind = "array" ∨ t.kind = "matrix") → Flat t := fun hkind h => absurd h hkind
  have hplain : ∀ decoder encoder, cDecoder t = some decoder → cEncoder t = some encoder →
      (decoders.lookup decoder).map plainType = some (mapCType t) →
      (encoders.lookup encoder).map plainType = some (mapCType t) → Flat t →
      (t.kind ≠ "void" → (ArgumentTyped s ↔ Flat t)) ∧ (ResultTyped s ↔ Flat t) := by
    intro decoder encoder hdecoder hencoder hargument hresult hflat
    rw [hdecoded _ hdecoder, hencoded _ hencoder]
    exact ⟨fun _ => iff_of_true hargument hflat, iff_of_true hresult hflat⟩
  cases (parseType_eq_ok_iff.mp h).wellFormed with
  | base hkind =>
    simp only [primitiveKinds, List.mem_cons, List.not_mem_nil, or_false] at hkind
    rcases hkind with rfl | rfl | rfl | rfl
    · exact hplain _ _ rfl rfl rfl rfl (hother (by decide))
    · exact hplain _ _ rfl rfl rfl rfl (hother (by decide))
    · exact hplain _ _ rfl rfl rfl rfl (hother (by decide))
    -- there is no helper for `void`, and no parameter has the type
    · refine ⟨fun hvoid => absurd rfl hvoid, iff_of_true ?_ (hother (by decide))⟩
      unfold ResultTyped
      rw [hzero]
      intro helper hhelper
      cases hhelper
  | generic hkind ht =>
    simp only [genericKinds, List.mem_cons, List.not_mem_nil, or_false] at hkind
    rename_i e
    have hflat : ∀ kind, kind = "array" ∨ kind = "matrix" → (Flat (.mk kind (some e)) ↔
        e.kind = "number" ∨ e.kind = "string" ∨ e.kind = "boolean") := by
      intro kind hkind
      unfold Flat ParsedType.element ParsedType.kind
      simp [hkind]
    rcases hkind with rfl | rfl | rfl | rfl | rfl
    -- arrays and matrices are right as far as their helpers for elements are
    · rw [hdecoded _ rfl, hencoded _ rfl, hflat _ (.inl rfl)]
      exact ⟨fun _ => elementHelper_typed "*" ht (by decide) (by decide) (by decide),
        elementHelper_typed "*" ht (by decide) (by decide) (by decide)⟩
    · rw [hdecoded _ rfl, hencoded _ rfl, hflat _ (.inr rfl)]
      exact ⟨fun _ => elementHelper_typed "**" ht (by decide) (by decide) (by decide),
        elementHelper_typed "**" ht (by decide) (by decide) (by decide)⟩
    · exact hplain _ _ rfl rfl rfl rfl (hother (by simp [ParsedType.kind]))
    · exact hplain _ _ rfl rfl rfl rfl (hother (by simp [ParsedType.kind]))
    · exact hplain _ _ rfl rfl rfl rfl (hother (by simp [ParsedType.kind]))

/-- An array of strings. -/
theorem c_call_typed_strings :
    ResultTyped "array<string>" ↔ Flat (.mk "array" (some (.mk "string" none))) :=
  (c_call_typed_iff (parseType_written (wellFormed_generic (by decide) (by decide)) (by decide))).2

/-- An array of arrays is declared as `int**` and decoded as an array of numbers. -/
theorem nested_array_ill_typed :
    (∃ t, parseType "array<array<number>>" = .ok t ∧ t.kind ≠ "void") ∧
      ¬ArgumentTyped "array<array<number>>" ∧ ¬ResultTyped "array<array<number>>" := by
  have hnumbers := @wellFormed_generic "array" "number" (by decide) (by decide)
  have hnested : parseType "array<array<number>>" =
      .ok (.mk "array" (some (.mk "array" (some (.mk "number" none))))) :=
    parseType_written (.generic (by decide) hnumbers) (by decide)
  refine ⟨⟨_, hnested, by decide⟩, ?_⟩
  unfold ArgumentTyped ResultTyped parsedOrZero cType typeOr
  rw [hnested]
  decide

end Typed

end Judge
