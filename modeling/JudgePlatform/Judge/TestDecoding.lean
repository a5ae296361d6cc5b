/-
# Decoding the tests of a problem

`ParseTestsJSON` (`pkg/models/problem.go`) decodes the raw tests of a problem.  It first
decodes the whole list as test cases, which reads the members `inputs` and `expected` of
objects and passes over all others; only where that fails does it look at each item, which
may be an object with other names or an array.

* `parseTestsJSON` : the decoder.
* `Judge.getKey_item`, `input_testCase` : what is taken from an object in either way.
* `tests_kept_iff` : when no inputs and no expected value are lost.
-/
import JudgePlatform.Judge.Problem
import JudgePlatform.Library.StructFields

namespace Judge

open GoStruct

/-! ## Numbers -/

/-- `isWholeNumber`. -/
def isWholeNumber (f : Binary64) : Bool :=
  match f.toRat with
  | some q => q.den = 1
  | none => false

/-- `int64(f)` of a whole number; what becomes of one that is out of range the language
leaves to the implementation. -/
def toInt64 (outside : ℚ → ℤ) (q : ℚ) : ℤ :=
  if -2 ^ 63 ≤ q ∧ q < 2 ^ 63 then q.num else outside q

mutual

def normalizeValue (outside : ℚ → ℤ) : GoValue → GoValue
  | .float f =>
    if isWholeNumber f then .int .int64 (toInt64 outside (f.toRat.getD 0)) else .float f
  | .slice vs => .slice (normalizeElements outside vs)
  | .map members => .map (normalizeMembers outside members)
  | v => v

/-- The loop of `normalizeNumbers`. -/
def normalizeElements (outside : ℚ → ℤ) : List GoValue → List GoValue
  | [] => []
  | v :: vs => normalizeValue outside v :: normalizeElements outside vs

def normalizeMembers (outside : ℚ → ℤ) : List (String × GoValue) → List (String × GoValue)
  | [] => []
  | (k, v) :: ms => (k, normalizeValue outside v) :: normalizeMembers outside ms

end

def normalizeNumbers (outside : ℚ → ℤ) (arr : Option (List GoValue)) : Option (List GoValue) :=
  arr.map (normalizeElements outside)

/-! ## The decoder -/

def testCaseFields : List (GoStruct.Field TestCase) := [
  field "inputs" (·.input) (fun t v => { t with input := v }) (slice any .nil),
  field "expected" (·.expected) (fun t v => { t with expected := v }) any,
  field "isSample" (·.isSample) (fun t b => { t with isSample := b }) bool,
  field "isHidden" (·.isHidden) (fun t b => { t with isHidden := b }) bool]

def testCase : Decoder TestCase := struct testCaseFields

/-- `v.([]interface{})`. -/
def asSlice : GoValue → Option (List GoValue)
  | .slice vs => some vs
  | _ => none

/-- `v.(bool)`, or `false`. -/
def asBool : GoValue → Bool
  | .bool b => b
  | _ => false

/-- The object form. -/
def objectCase (outside : ℚ → ℤ) (v : List (String × GoValue)) : TestCase :=
  let inputKey := if (GoValue.getKey v "inputs").isSome then "inputs" else "input"
  let inputIntf := asSlice ((GoValue.getKey v inputKey).getD .nil)
  let expectedKey := if (GoValue.getKey v "expected").isSome then "expected" else "expectedOutput"
  { input := normalizeNumbers outside inputIntf
    expected := normalizeValue outside ((GoValue.getKey v expectedKey).getD .nil)
    isHidden := asBool ((GoValue.getKey v "isHidden").getD .nil)
    isSample := asBool ((GoValue.getKey v "isSample").getD .nil) }

/-- One round of the loop over the items; arrays that are too short and other values are
skipped. -/
def convertItem (outside : ℚ → ℤ) : GoValue → Option TestCase
  | .map v => some (objectCase outside v)
  | .slice (inputs :: expected :: rest) =>
    let inputArr := ((asSlice inputs).map (normalizeElements outside)).getD []
    some { input := some inputArr
           expected := normalizeValue outside expected
           isHidden := asBool (rest.headD .nil) }
  | _ => none

/-- `ParseTestsJSON`; `decodeError` is what the decoder says of a text. -/
def parseTestsJSON (outside : ℚ → ℤ) (decodeError : String → String) (p : Problem) :
    Except String Problem :=
  if p.testsJSON = "" then .ok p
  else
    let cases := unmarshal (slice testCase {}) p.testsJSON none
    if cases.2 then .ok { p with testCases := cases.1.getD [] }
    else
      let generic := unmarshal (slice any .nil) p.testsJSON none
      if generic.2 then
        .ok { p with testCases := (generic.1.getD []).filterMap (convertItem outside) }
      else .error ("failed to unmarshal tests JSON: " ++ decodeError p.testsJSON)

/-! ## Forms of items -/

/-- The inputs of an object. -/
def inputsOf (ms : List (String × Json)) : Option Json :=
  (lastNamed "inputs" ms).or (lastNamed "input" ms)

/-- The expected value of an object. -/
def expectedOf (ms : List (String × Json)) : Option Json :=
  (lastNamed "expected" ms).or (lastNamed "expectedOutput" ms)

/-- The inputs and the expected value of an item, if it is in one of the forms that the code
documents. -/
def documented : Json → Option (List Json × Json)
  | .obj ms =>
    match inputsOf ms, expectedOf ms with
    | some (.arr xs), some e => some (xs, e)
    | _, _ => none
  | .arr [.arr xs, e] => some (xs, e)
  | .arr [.arr xs, e, .bool _] => some (xs, e)
  | _ => none

/-- A test case has the inputs and the expected value of an item, up to the normalization of
numbers. -/
def Keeps (outside : ℚ → ℤ) (item : Json) (tc : TestCase) : Prop :=
  ∀ xs e, documented item = some (xs, e) →
    normalizeNumbers outside tc.input = normalizeNumbers outside (some (GoValue.ofElements xs).1) ∧
      normalizeValue outside tc.expected = normalizeValue outside (GoValue.ofJson e).1

/-- There is one test case for each item, in order, that has what the item has. -/
def Kept (outside : ℚ → ℤ) (decodeError : String → String) (p : Problem) (items : List Json) :
    Prop :=
  ∃ p', parseTestsJSON outside decodeError p = .ok p' ∧
    List.Forall₂ (Keeps outside) items p'.testCases

/-- Whether a member fits the field of a test case that it belongs to. -/
def fitsField (name : String) (v : Json) : Bool :=
  if name = "inputs" then fitsSlice v
  else if name = "expected" then (GoValue.ofJson v).2
  else fitsBool v

/-- An object whose members fit the fields of a test case. -/
def FitsTestCase : Json → Prop
  | .obj ms => ∀ m ∈ ms, ∀ name ∈ fieldName testCaseFields m.1, fitsField name m.2 = true
  | .null => True
  | _ => False

/-- The last member of a name up to the case of its letters. -/
def lastFolded (name : String) (ms : List (String × Json)) : Option Json :=
  Overwriting.lastWrite (fun m => if foldName m.1 = foldName name then some m.2 else none) ms

/-- The inputs of an item are under the name `inputs`, and its expected value is under the
name `expected`, where the fields of a test case are looked for; a value that is not there
counts as null. -/
def NamedAsFields (outside : ℚ → ℤ) : Json → Prop
  | .obj ms =>
    ∀ xs e, documented (.obj ms) = some (xs, e) →
      (∃ ys, lastFolded "inputs" ms = some (.arr ys) ∧
        normalizeElements outside (GoValue.ofElements ys).1 =
          normalizeElements outside (GoValue.ofElements xs).1) ∧
      normalizeValue outside (((lastFolded "expected" ms).map fun v => (GoValue.ofJson v).1).getD .nil) =
        normalizeValue outside (GoValue.ofJson e).1
  | _ => True

/-! ## Normalizing -/

section Normalizing

variable {outside : ℚ → ℤ}

mutual

/-- A normalized value is normalized already. -/
theorem normalizeValue_idem : ∀ v : GoValue,
    normalizeValue outside (normalizeValue outside v) = normalizeValue outside v
  | .float f => by
    rw [normalizeValue]
    split_ifs with h
    · rw [normalizeValue]
      all_goals simp
    · rw [normalizeValue, if_neg h]
  | .slice vs => by rw [normalizeValue, normalizeValue, normalizeElements_idem vs]
  | .map ms => by rw [normalizeValue, normalizeValue, normalizeMembers_idem ms]
  | .nil => by simp [normalizeValue]
  | .bool b => by simp [normalizeValue]
  | .int kind n => by simp [normalizeValue]
  | .string s => by simp [normalizeValue]
  | .nilSlice => by simp [normalizeValue]
  | .elem key value => by simp [normalizeValue]

theorem normalizeElements_idem : ∀ vs : List GoValue,
    normalizeElements outside (normalizeElements outside vs) = normalizeElements outside vs
  | [] => by simp [normalizeElements]
  | v :: vs => by
    rw [normalizeElements, normalizeElements, normalizeValue_idem v, normalizeElements_idem vs]

theorem normalizeMembers_idem : ∀ ms : List (String × GoValue),
    normalizeMembers outside (normalizeMembers outside ms) = normalizeMembers outside ms
  | [] => by simp [normalizeMembers]
  | (k, v) :: ms => by
    rw [normalizeMembers, normalizeMembers, normalizeValue_idem v, normalizeMembers_idem ms]

end

end Normalizing

/-! ## Item by item -/

section Items

variable {outside : ℚ → ℤ} {item e : Json} {xs : List Json} {ms : List (String × Json)}

theorem documented_cases (h : documented item = some (xs, e)) :
    (∃ ms, item = .obj ms ∧ inputsOf ms = some (.arr xs) ∧ expectedOf ms = some e) ∨
      ∃ rest, item = .arr (.arr xs :: e :: rest) := by
  unfold documented at h
  split at h
  next ms =>
    split at h
    next xs' e' hinputs hexpected =>
      obtain ⟨rfl, rfl⟩ := Prod.mk.inj (Option.some.inj h)
      exact .inl ⟨ms, rfl, hinputs, hexpected⟩
    next => cases h
  next xs' e' =>
    obtain ⟨rfl, rfl⟩ := Prod.mk.inj (Option.some.inj h)
    exact .inr ⟨[], rfl⟩
  next xs' e' b =>
    obtain ⟨rfl, rfl⟩ := Prod.mk.inj (Option.some.inj h)
    exact .inr ⟨[.bool b], rfl⟩
  next => cases h

/-- What a map has under one of two names, the first one if it is there. -/
theorem getKey_either (ms : List (String × Json)) (k k' : String) :
    let v := (GoValue.ofMembers ms []).1
    GoValue.getKey v (if (GoValue.getKey v k).isSome then k else k') =
      ((lastNamed k ms).or (lastNamed k' ms)).map fun j => (GoValue.ofJson j).1 := by
  simp only [getKey_ofMembers, Option.isSome_map]
  cases h : lastNamed k ms with
  | none => simp
  | some j => simp [h]

/-- **An item on its own is kept**, in each of its forms. -/
theorem keeps_convertItem (h : documented item = some (xs, e)) :
    ∃ tc, convertItem outside (GoValue.ofJson item).1 = some tc ∧ Keeps outside item tc := by
  have hkeeps : ∀ tc : TestCase,
      tc.input = some (normalizeElements outside (GoValue.ofElements xs).1) →
      tc.expected = normalizeValue outside (GoValue.ofJson e).1 → Keeps outside item tc := by
    intro tc hinput hexpected xs' e' h'
    obtain ⟨rfl, rfl⟩ := Prod.mk.inj (Option.some.inj (h.symm.trans h'))
    unfold normalizeNumbers
    rw [hinput, hexpected, normalizeValue_idem, Option.map_some, Option.map_some,
      normalizeElements_idem]
    exact ⟨rfl, rfl⟩
  -- an object is read by the same names that document it
  rcases documented_cases h with ⟨ms, rfl, hinputs, hexpected⟩ | ⟨rest, rfl⟩
  · refine ⟨_, rfl, hkeeps _ ?_ ?_⟩
    · show normalizeNumbers outside (asSlice ((GoValue.getKey _ _).getD .nil)) = _
      rw [getKey_either, show (lastNamed "inputs" ms).or _ = _ from hinputs]
      rfl
    · show normalizeValue outside ((GoValue.getKey _ _).getD .nil) = _
      rw [getKey_either, show (lastNamed "expected" ms).or _ = _ from hexpected]
      rfl
  · exact ⟨_, rfl, hkeeps _ rfl rfl⟩

theorem ofElements_fst (js : List Json) :
    (GoValue.ofElements js).1 = js.map fun j => (GoValue.ofJson j).1 := by
  induction js with
  | nil => rfl
  | cons j js ih =>
    rw [GoValue.ofElements, List.map_cons, ih]

/-- A list of items that are looked at one by one is kept. -/
theorem forall₂_convertItem {items : List Json} (h : ∀ item ∈ items, (documented item).isSome) :
    List.Forall₂ (Keeps outside) items
      ((GoValue.ofElements items).1.filterMap (convertItem outside)) := by
  rw [ofElements_fst]
  induction items with
  | nil => exact .nil
  | cons item items ih =>
    obtain ⟨hitem, hitems⟩ := List.forall_mem_cons.mp h
    obtain ⟨⟨xs, e⟩, hdoc⟩ := Option.isSome_iff_exists.mp hitem
    obtain ⟨tc, htc, hkeeps⟩ := @keeps_convertItem outside _ _ _ hdoc
    rw [List.map_cons, List.filterMap_cons, htc]
    exact .cons hkeeps (ih hitems)

/-! ## The list as a whole -/

theorem fieldName_iff {key name : String} (h : name ∈ testCaseFields.map GoStruct.Field.name) :
    fieldName testCaseFields key = some name ↔ foldName key = foldName name := by
  refine fieldName_eq_some_iff ?_ h
  decide

/-- What a member writes to a field of a test case depends on its name but for its case. -/
theorem written_testCase {γ : Type} {name : String} (write : Json → Option γ)
    (h : name ∈ testCaseFields.map GoStruct.Field.name) (m : String × Json) :
    written testCaseFields name write m =
      if foldName m.1 = foldName name then write m.2 else none :=
  if_congr (fieldName_iff h) rfl rfl

/-- The decoder finds no fault with an item just when it fits. -/
theorem testCase_snd (item : Json) (s : TestCase) :
    (testCase item s).2 = true ↔ FitsTestCase item := by
  have hfits : ∀ f ∈ testCaseFields, ∀ v s, (f.store v s).2 = fitsField f.name v := by
    intro f hf v s
    unfold testCaseFields at hf
    simp only [List.mem_cons, List.not_mem_nil, or_false] at hf
    rcases hf with rfl | rfl | rfl | rfl
    · exact overwrites_slice.flag v _
    · exact overwrites_any.flag v s.expected
    · exact overwrites_bool.flag v _
    · exact overwrites_bool.flag v _
  cases item with
  | null => exact iff_of_true rfl trivial
  | obj ms => exact storeMembers_snd hfits ms s
  | bool b => exact iff_of_false Bool.false_ne_true id
  | num n => exact iff_of_false Bool.false_ne_true id
  | str t => exact iff_of_false Bool.false_ne_true id
  | arr xs => exact iff_of_false Bool.false_ne_true id

/-- What is written to a slice that fits. -/
def elementsOf : Json → Option (List GoValue)
  | .arr js => some (GoValue.ofElements js).1
  | _ => none

theorem writeSlice_of_fits {v : Json} (h : fitsSlice v = true) : writeSlice v = some (elementsOf v) := by
  cases v with
  | null => rfl
  | arr js => rfl
  | bool b => cases h
  | num n => cases h
  | str t => cases h
  | obj ms => cases h

/-- The decoder takes the inputs from the last member of their name but for its case. -/
theorem input_testCase (h : FitsTestCase (.obj ms)) :
    (testCase (.obj ms) {}).1.input = (lastFolded "inputs" ms).bind elementsOf := by
  have hproj : ∀ f ∈ testCaseFields, ∀ v s, (f.store v s).1.input =
      if f.name = "inputs" then (writeSlice v).getD s.input else s.input := by
    intro f hf v s
    unfold testCaseFields at hf
    simp only [List.mem_cons, List.not_mem_nil, or_false] at hf
    rcases hf with rfl | rfl | rfl | rfl
    · exact overwrites_slice.value v s.input
    · rfl
    · rfl
    · rfl
  have hwritten : ∀ m ∈ ms, written testCaseFields "inputs" writeSlice m =
      (if foldName m.1 = foldName "inputs" then some m.2 else none).map elementsOf := by
    intro m hm
    rw [written_testCase _ (by decide)]
    split_ifs with hkey
    · exact writeSlice_of_fits (h m hm "inputs" ((fieldName_iff (by decide)).mpr hkey))
    · rfl
  refine (@proj_storeMembers_lastWrite _ _ _ TestCase.input _ _ hproj ms {}).trans ?_
  rw [Overwriting.lastWrite_congr _ hwritten, Overwriting.lastWrite_map]
  show ((lastFolded "inputs" ms).map elementsOf).getD none = _
  cases lastFolded "inputs" ms <;> rfl

/-- And the expected value. -/
theorem expected_testCase (ms : List (String × Json)) : (testCase (.obj ms) {}).1.expected =
    ((lastFolded "expected" ms).map fun v => (GoValue.ofJson v).1).getD .nil := by
  have hproj : ∀ f ∈ testCaseFields, ∀ v s, (f.store v s).1.expected =
      if f.name = "expected" then (some (GoValue.ofJson v).1).getD s.expected else s.expected := by
    intro f hf v s
    unfold testCaseFields at hf
    simp only [List.mem_cons, List.not_mem_nil, or_false] at hf
    rcases hf with rfl | rfl | rfl | rfl <;> rfl
  refine (@proj_storeMembers_lastWrite _ _ _ TestCase.expected _ _ hproj ms {}).trans ?_
  have hwritten : ∀ m ∈ ms,
      written testCaseFields "expected" (fun v => some (GoValue.ofJson v).1) m =
        (if foldName m.1 = foldName "expected" then some m.2 else none).map fun v =>
          (GoValue.ofJson v).1 := by
    intro m _
    rw [written_testCase _ (by decide)]
    split_ifs
    · rfl
    · rfl
  rw [Overwriting.lastWrite_congr _ hwritten, Overwriting.lastWrite_map]
  rfl

/-- An object that fits is kept where its inputs and its expected value are found. -/
theorem keeps_testCase_iff (hfits : FitsTestCase item) (hdoc : (documented item).isSome) :
    Keeps outside item (testCase item {}).1 ↔ NamedAsFields outside item := by
  obtain ⟨⟨xs, e⟩, h⟩ := Option.isSome_iff_exists.mp hdoc
  rcases documented_cases h with ⟨ms, rfl, -, -⟩ | ⟨rest, rfl⟩
  · unfold Keeps NamedAsFields
    refine forall₃_congr fun xs e _ => and_congr ?_ ?_
    · rw [input_testCase hfits]
      unfold normalizeNumbers
      cases lastFolded "inputs" ms with
      | none => simp
      | some v => cases v <;> simp [elementsOf]
    · rw [expected_testCase]
  -- an array never fits a test case
  · exact absurd hfits id

variable {decodeError : String → String} {p : Problem} {items : List Json}

theorem testsJSON_ne (hparse : Json.parse p.testsJSON = some (.arr items)) : p.testsJSON ≠ "" := by
  intro h
  rw [h] at hparse
  cases hparse

theorem unmarshal_cases (hparse : Json.parse p.testsJSON = some (.arr items)) :
    unmarshal (slice testCase {}) p.testsJSON none =
      (some (items.map fun item => (testCase item {}).1),
        items.all fun item => (testCase item {}).2) := by
  unfold unmarshal
  rw [hparse]
  show (some (elements testCase {} items []).1, (elements testCase {} items []).2) = _
  rw [elements_nil]

/-- A list whose items all fit is decoded as test cases. -/
theorem parseTestsJSON_of_fits (hparse : Json.parse p.testsJSON = some (.arr items))
    (hfit : ∀ item ∈ items, FitsTestCase item) : parseTestsJSON outside decodeError p =
      .ok { p with testCases := items.map fun item => (testCase item {}).1 } := by
  have hall : (items.all fun item => (testCase item {}).2) = true :=
    List.all_eq_true.mpr fun item hitem => (testCase_snd item {}).mpr (hfit item hitem)
  unfold parseTestsJSON
  rw [if_neg (testsJSON_ne hparse), unmarshal_cases hparse]
  simp only [hall, if_true, Option.getD_some]

/-- The items of any other list are looked at one by one. -/
theorem parseTestsJSON_of_not_fits (hparse : Json.parse p.testsJSON = some (.arr items))
    (hfit : ¬∀ item ∈ items, FitsTestCase item) : parseTestsJSON outside decodeError p =
      if (GoValue.ofElements items).2 then
        .ok { p with testCases := (GoValue.ofElements items).1.filterMap (convertItem outside) }
      else .error ("failed to unmarshal tests JSON: " ++ decodeError p.testsJSON) := by
  have hall : (items.all fun item => (testCase item {}).2) = false := by
    rw [Bool.eq_false_iff]
    exact fun h => hfit fun item hitem =>
      (testCase_snd item {}).mp (List.all_eq_true.mp h item hitem)
  have hgeneric : unmarshal (slice any .nil) p.testsJSON none =
      (some (GoValue.ofElements items).1, (GoValue.ofElements items).2) := by
    unfold unmarshal
    rw [hparse]
    show (some (elements any .nil items []).1, (elements any .nil items []).2) = _
    rw [elements_any]
  unfold parseTestsJSON
  rw [if_neg (testsJSON_ne hparse), unmarshal_cases hparse, hgeneric]
  simp only [hall, Bool.false_eq_true, if_false, Option.getD_some]

/-- **When no test loses anything**: the items all fit test cases, and then each has its
inputs and its expected value under the names of the fields; or they do not all fit, and then
each can be decoded on its own. -/
theorem tests_kept_iff (outside : ℚ → ℤ) (decodeError : String → String) {p : Problem}
    {items : List Json} (hparse : Json.parse p.testsJSON = some (.arr items))
    (hdoc : ∀ item ∈ items, (documented item).isSome) :
    Kept outside decodeError p items ↔
      ((∀ item ∈ items, FitsTestCase item) → ∀ item ∈ items, NamedAsFields outside item) ∧
        ((∃ item ∈ items, ¬FitsTestCase item) → ∀ item ∈ items, GoValue.Decodable item) := by
  unfold Kept
  by_cases hfit : ∀ item ∈ items, FitsTestCase item
  · have hexists : ¬∃ item ∈ items, ¬FitsTestCase item := by
      rintro ⟨item, hitem, hnot⟩
      exact hnot (hfit item hitem)
    -- every item is decoded as a test case, by the names of the fields alone
    simp only [parseTestsJSON_of_fits hparse hfit, Except.ok.injEq, exists_eq_left']
    rw [List.forall₂_map_right_iff, List.forall₂_same]
    constructor
    · exact fun h => ⟨fun _ item hitem =>
        (keeps_testCase_iff (hfit item hitem) (hdoc item hitem)).mp (h item hitem),
        fun h => absurd h hexists⟩
    · exact fun h item hitem =>
        (keeps_testCase_iff (hfit item hitem) (hdoc item hitem)).mpr (h.1 hfit item hitem)
  · have hexists : ∃ item ∈ items, ¬FitsTestCase item := by
      push Not at hfit
      exact hfit
    -- one item that does not fit has all of them looked at
    rw [parseTestsJSON_of_not_fits hparse hfit]
    by_cases hdecodable : ∀ item ∈ items, GoValue.Decodable item
    · rw [if_pos ((GoValue.ofElements_ok items).mpr hdecodable)]
      exact iff_of_true ⟨_, rfl, forall₂_convertItem hdoc⟩
        ⟨fun h => absurd h hfit, fun _ => hdecodable⟩
    · rw [if_neg fun h => hdecodable ((GoValue.ofElements_ok items).mp h)]
      refine iff_of_false ?_ fun h => hdecodable (h.2 hexists)
      rintro ⟨p', hp', -⟩
      cases hp'

end Items

/-! ## Other names -/

/-- A test as an object without the names of the fields. -/
def otherNames : Json := .obj [("input", .arr [.null]), ("expectedOutput", .bool true)]

/-- The same test as an array. -/
def asArray : Json := .arr [.arr [.null], .bool true]

/-- A problem with raw tests. -/
def problemWithTests (items : List Json) : Problem :=
  { testsJSON := String.ofList (Json.print Json.jsEscape (.arr items)) }

theorem parse_problemWithTests (items : List Json) :
    Json.parse (problemWithTests items).testsJSON = some (.arr items) :=
  Json.parse_print Json.jsEscape (.arr items)

/-- An array in the list has the object looked at on its own. -/
theorem mixed_tests_kept :
    Kept (fun _ => 0) (fun _ => "") (problemWithTests [otherNames, asArray]) [otherNames, asArray] := by
  refine (tests_kept_iff _ _ (parse_problemWithTests _) ?_).mpr ⟨fun h => ?_, fun _ => ?_⟩
  · simp only [List.forall_mem_cons]
    exact ⟨rfl, rfl, fun _ h => nomatch h⟩
  · exact absurd (h asArray (by simp)) id
  · simp only [List.forall_mem_cons]
    exact ⟨rfl, rfl, fun _ h => nomatch h⟩

/-- **Without it the test is empty**: there are no inputs, and null is expected. -/
theorem other_names_lost : (documented otherNames).isSome ∧
    ¬Kept (fun _ => 0) (fun _ => "") (problemWithTests [otherNames]) [otherNames] := by
  have hfit : ∀ item ∈ [otherNames], FitsTestCase item := by
    intro item hitem
    rw [List.mem_singleton.mp hitem]
    exact (testCase_snd otherNames {}).mp rfl
  refine ⟨rfl, ?_⟩
  rintro ⟨p', hp', hkept⟩
  rw [parseTestsJSON_of_fits (parse_problemWithTests _) hfit] at hp'
  obtain rfl := Except.ok.inj hp'
  -- the test case has no inputs, where the item has one
  obtain ⟨hinput, -⟩ := (List.forall₂_cons.mp hkept).1 _ _ rfl
  cases hinput

end Judge
