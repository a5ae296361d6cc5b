/-
# Fields of decoded structs

`json.Unmarshal` stores the members of an object one after the other.  Where storing a
member overwrites its field or leaves it, whatever the field holds, a field has in the end
the value of the last member that overwrites it.

* `Overwrites d write fits` : a decoder that only overwrites.
* `proj_storeMembers_lastWrite` : what a field holds after decoding.
* `getKey_ofMembers` : what a map holds after decoding.
-/
import JudgePlatform.Library.GoStruct
import JudgePlatform.Library.Overwriting

namespace GoStruct

open Overwriting

/-! ## Decoders that overwrite -/

/-- A decoder that overwrites a variable or leaves it, and whether the type fits. -/
structure Overwrites {α : Type} (d : Decoder α) (write : Json → Option α) (fits : Json → Bool) :
    Prop where
  value : ∀ v x, (d v x).1 = (write v).getD x
  flag : ∀ v x, (d v x).2 = fits v

def writeString : Json → Option String
  | .str t => some t
  | _ => none

def fitsString : Json → Bool
  | .null => true
  | .str _ => true
  | _ => false

theorem overwrites_string : Overwrites string writeString fitsString :=
  ⟨fun v x => by cases v <;> rfl, fun v x => by cases v <;> rfl⟩

def writeBool : Json → Option Bool
  | .bool b => some b
  | _ => none

def fitsBool : Json → Bool
  | .null => true
  | .bool _ => true
  | _ => false

theorem overwrites_bool : Overwrites bool writeBool fitsBool :=
  ⟨fun v x => by cases v <;> rfl, fun v x => by cases v <;> rfl⟩

theorem overwrites_any :
    Overwrites any (fun v => some (GoValue.ofJson v).1) fun v => (GoValue.ofJson v).2 :=
  ⟨fun _ _ => rfl, fun _ _ => rfl⟩

/-- The elements of a slice of `interface{}` do not depend on the ones that were there. -/
theorem elements_any (js : List Json) (old : List GoValue) :
    elements any .nil js old = GoValue.ofElements js := by
  induction js generalizing old with
  | nil => rfl
  | cons j js ih =>
    rw [elements, ih, GoValue.ofElements]
    rfl

/-- The elements of a new slice. -/
theorem elements_nil {α : Type} (d : Decoder α) (zero : α) (js : List Json) :
    elements d zero js [] = (js.map fun j => (d j zero).1, js.all fun j => (d j zero).2) := by
  induction js with
  | nil => rfl
  | cons j js ih =>
    rw [elements, List.tail_nil, ih, List.map_cons, List.all_cons]
    rfl

/-- A `[]interface{}`: `null` makes it nil. -/
def writeSlice : Json → Option (Option (List GoValue))
  | .null => some none
  | .arr js => some (some (GoValue.ofElements js).1)
  | _ => none

def fitsSlice : Json → Bool
  | .null => true
  | .arr js => (GoValue.ofElements js).2
  | _ => false

theorem overwrites_slice : Overwrites (slice any .nil) writeSlice fitsSlice := by
  constructor
  · intro v x
    cases v <;> simp [slice, writeSlice, elements_any]
  · intro v x
    cases v <;> simp [slice, fitsSlice, elements_any]

/-! ## Fields -/

section
variable {σ γ : Type} {fields : List (Field σ)}

/-- The name of the field a key belongs to. -/
def fieldName (fields : List (Field σ)) (key : String) : Option String :=
  (findField fields key).map Field.name

/-- What a member writes to a field. -/
def written (fields : List (Field σ)) (name : String) (write : Json → Option γ)
    (m : String × Json) : Option γ :=
  if fieldName fields m.1 = some name then write m.2 else none

theorem storeMembers_fst (ms : List (String × Json)) (s : σ) :
    (storeMembers fields ms s).1 =
      ms.foldl (fun s m => (findField fields m.1).elim s fun f => (f.store m.2 s).1) s := by
  induction ms generalizing s with
  | nil => rfl
  | cons m ms ih =>
    obtain ⟨k, v⟩ := m
    rw [storeMembers, List.foldl_cons]
    cases findField fields k with
    | none => exact ih s
    | some f => exact ih (f.store v s).1

theorem mem_of_findField {key : String} {f : Field σ} (h : findField fields key = some f) :
    f ∈ fields ∧ foldName f.name = foldName key := by
  unfold findField at h
  rw [Option.orElse_eq_orElse, Option.orElse_eq_or, Option.or_eq_some_iff] at h
  rcases h with h | ⟨-, h⟩
  · refine ⟨List.mem_of_find?_eq_some h, ?_⟩
    have hname : f.name = key := by simpa using List.find?_some h
    rw [hname]
  · exact ⟨List.mem_of_find?_eq_some h, by simpa using List.find?_some h⟩

/-- **A field has the value of the last member that overwrites it.** -/
theorem proj_storeMembers_lastWrite {proj : σ → γ} {name : String} {write : Json → Option γ}
    (hproj : ∀ f ∈ fields, ∀ v s,
      proj (f.store v s).1 = if f.name = name then (write v).getD (proj s) else proj s)
    (ms : List (String × Json)) (s : σ) :
    proj (storeMembers fields ms s).1 = (lastWrite (written fields name write) ms).getD (proj s) := by
  rw [storeMembers_fst]
  -- a member of another field, or of none, leaves this one
  refine foldl_eq_lastWrite _ (fun s m => ?_) s ms
  unfold written fieldName
  cases hfind : findField fields m.1 with
  | none => rfl
  | some f =>
    show proj (f.store m.2 s).1 = _
    rw [hproj f (mem_of_findField hfind).1]
    by_cases hname : f.name = name
    · simp [hname]
    · simp [hname]

/-- Decoding finds no fault where each member fits its field. -/
theorem storeMembers_snd {fits : String → Json → Bool}
    (hfits : ∀ f ∈ fields, ∀ v s, (f.store v s).2 = fits f.name v)
    (ms : List (String × Json)) (s : σ) :
    (storeMembers fields ms s).2 = true ↔
      ∀ m ∈ ms, ∀ name ∈ fieldName fields m.1, fits name m.2 = true := by
  induction ms generalizing s with
  | nil => simp [storeMembers]
  | cons m ms ih =>
    obtain ⟨k, v⟩ := m
    rw [storeMembers, List.forall_mem_cons]
    unfold fieldName
    cases hfind : findField fields k with
    | none =>
      rw [ih s]
      simp [fieldName]
    | some f =>
      simp only [Bool.and_eq_true, ih, hfits f (mem_of_findField hfind).1]
      simp [fieldName]

/-- A key belongs to the field whose name it is but for the case of its letters. -/
theorem fieldName_eq_some_iff (h : (fields.map fun f => foldName f.name).Nodup) {key name : String}
    (hname : name ∈ fields.map Field.name) :
    fieldName fields key = some name ↔ foldName key = foldName name := by
  obtain ⟨f, hf, rfl⟩ := List.mem_map.mp hname
  unfold fieldName
  constructor
  · intro hfind
    obtain ⟨g, hg, hsame⟩ := Option.map_eq_some_iff.mp hfind
    rw [← hsame, (mem_of_findField hg).2]
  · intro hkey
    have hsome : (findField fields key).isSome = true := by
      unfold findField
      rw [Option.orElse_eq_orElse, Option.orElse_eq_or, Option.isSome_or, Bool.or_eq_true]
      exact .inr (List.find?_isSome.mpr ⟨f, hf, decide_eq_true hkey.symm⟩)
    obtain ⟨g, hg⟩ := Option.isSome_iff_exists.mp hsome
    obtain ⟨hmem, hfold⟩ := mem_of_findField hg
    obtain rfl : g = f := List.inj_on_of_nodup_map h hmem hf (hfold.trans hkey)
    rw [hg]
    rfl

end

/-! ## Maps -/

theorem getKey_setKey (ms : List (String × GoValue)) (k k' : String) (v : GoValue) :
    GoValue.getKey (GoValue.setKey ms k v) k' = if k = k' then some v else GoValue.getKey ms k' := by
  unfold GoValue.getKey
  induction ms with
  | nil =>
    rw [GoValue.setKey]
    by_cases h : k = k'
    · simp [h]
    · simp [h]
  -- a member with the key is replaced in its place, and none is behind it
  | cons m ms ih =>
    obtain ⟨l, w⟩ := m
    rw [GoValue.setKey]
    by_cases hl : l = k
    · subst hl
      by_cases h : l = k'
      · simp [h]
      · simp [h]
    · rw [if_neg hl, List.find?_cons, List.find?_cons]
      by_cases hk : l = k'
      · have hne : k ≠ k' := fun h => hl (hk.trans h.symm)
        simp [hk, hne]
      · simpa [hk] using ih

theorem ofMembers_fst (ms : List (String × Json)) (acc : List (String × GoValue)) :
    (GoValue.ofMembers ms acc).1 =
      ms.foldl (fun acc m => GoValue.setKey acc m.1 (GoValue.ofJson m.2).1) acc := by
  induction ms generalizing acc with
  | nil => rfl
  | cons m ms ih =>
    obtain ⟨k, v⟩ := m
    rw [GoValue.ofMembers, List.foldl_cons]
    exact ih _

/-- The last member with a name. -/
def lastNamed (k : String) (ms : List (String × Json)) : Option Json :=
  lastWrite (fun m => if m.1 = k then some m.2 else none) ms

/-- **A map has under a key the value of the last member with it.** -/
theorem getKey_ofMembers (ms : List (String × Json)) (k : String) :
    GoValue.getKey (GoValue.ofMembers ms []).1 k =
      (lastNamed k ms).map fun v => (GoValue.ofJson v).1 := by
  have hstep : ∀ (acc : List (String × GoValue)) (m : String × Json),
      GoValue.getKey (GoValue.setKey acc m.1 (GoValue.ofJson m.2).1) k =
        ((if m.1 = k then some m.2 else none).map fun v => some (GoValue.ofJson v).1).getD
          (GoValue.getKey acc k) := by
    intro acc m
    rw [getKey_setKey]
    split_ifs <;> rfl
  have hlast := @foldl_eq_lastWrite _ _ _ _ _ (fun acc => GoValue.getKey acc k) hstep [] ms
  rw [ofMembers_fst]
  refine hlast.trans ?_
  rw [lastWrite_map]
  show ((lastNamed k ms).map _).getD none = _
  cases lastNamed k ms <;> rfl

end GoStruct
