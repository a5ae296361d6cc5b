/-
# JSON schemas

What the keywords of JSON Schema ask of a value.  A schema is the check that it makes; an object
has no members that its schema does not name (`additionalProperties: false`).

* `object_iff`, `array_iff`, `text_iff`, `integer_iff` : what is accepted.
* `member` : a member of an accepted object is accepted.
-/
import JudgePlatform.Library.JsValue

/-- A schema, as the values that it accepts. -/
abbrev JsonSchema := JsValue → Bool

namespace JsonSchema

open JsValue

/-- A string of at least `minLength` characters that fits the pattern, enumeration or format. -/
def text (minLength : ℕ) (fits : String → Bool) : JsonSchema
  | .str s => minLength ≤ s.length && fits s
  | _ => false

/-- A finite number, and a whole one for `integer`. -/
def number (minimum : ℚ) : JsonSchema
  | .num x => x.toRat.any fun q => minimum ≤ q
  | _ => false

def integer (minimum : ℤ) : JsonSchema
  | .num x => (integerOf x).any fun n => minimum ≤ n
  | _ => false

def boolean : JsonSchema
  | .bool _ => true
  | _ => false

/-- The empty schema. -/
def any : JsonSchema := fun _ => true

def array (minItems : ℕ) (items : JsonSchema) : JsonSchema
  | .arr xs => minItems ≤ xs.length && xs.all items
  | _ => false

def object (properties : List (String × JsonSchema)) (required : List String) : JsonSchema
  | .obj ms =>
    ms.all (fun m => (lookup properties m.1).any fun schema => schema m.2) &&
      required.all fun k => (lookup ms k).isSome
  | _ => false

variable {v x : JsValue} {k : String} {ms : List (String × JsValue)}

theorem text_iff {minLength : ℕ} {fits : String → Bool} : text minLength fits v = true ↔
    ∃ s, v = .str s ∧ minLength ≤ s.length ∧ fits s = true := by
  cases v with
  | str s => simp [text]
  | _ => simp [text]

theorem integer_iff {minimum : ℤ} : integer minimum v = true ↔
    ∃ x n, v = .num x ∧ integerOf x = some n ∧ minimum ≤ n := by
  cases v with
  | num x => simp [integer, Option.any_eq_true]
  | _ => simp [integer]

theorem array_iff {minItems : ℕ} {items : JsonSchema} : array minItems items v = true ↔
    ∃ xs, v = .arr xs ∧ minItems ≤ xs.length ∧ ∀ x ∈ xs, items x = true := by
  cases v with
  | arr xs => simp [array]
  | _ => simp [array]

section Objects

variable {properties : List (String × JsonSchema)} {required : List String}

theorem object_iff : object properties required v = true ↔
    ∃ ms, v = .obj ms ∧ (∀ m ∈ ms, ∃ schema, lookup properties m.1 = some schema ∧
      schema m.2 = true) ∧ ∀ k ∈ required, ∃ x, lookup ms k = some x := by
  cases v with
  | obj ms => simp [object, Option.any_eq_true, Option.isSome_iff_exists]
  | _ => simp [object]

theorem exists_of_object (h : object properties required v = true) : ∃ ms, v = .obj ms := by
  obtain ⟨ms, rfl, -⟩ := object_iff.mp h
  exact ⟨ms, rfl⟩

/-- A member of an accepted object is accepted. -/
theorem member {schema : JsonSchema} (h : object properties required (.obj ms) = true)
    (hk : lookup properties k = some schema) (hx : lookup ms k = some x) : schema x = true := by
  obtain ⟨ms', hms, hall, -⟩ := object_iff.mp h
  obtain rfl := JsValue.obj.inj hms
  obtain ⟨schema', hschema, haccepted⟩ := hall _ (mem_of_lookup hx)
  rw [hk] at hschema
  rwa [Option.some.inj hschema]

/-- A required member is there, and is accepted. -/
theorem required_member {schema : JsonSchema} (h : object properties required (.obj ms) = true)
    (hk : lookup properties k = some schema) (hrequired : k ∈ required) :
    ∃ x, lookup ms k = some x ∧ schema x = true := by
  obtain ⟨ms', hms, -, hall⟩ := object_iff.mp h
  obtain rfl := JsValue.obj.inj hms
  obtain ⟨x, hx⟩ := hall k hrequired
  exact ⟨x, hx, member h hk hx⟩

/-- A member that the schema does not name is not there. -/
theorem lookup_eq_none (h : object properties required (.obj ms) = true)
    (hk : lookup properties k = none) : lookup ms k = none := by
  cases hx : lookup ms k with
  | none => rfl
  | some x =>
    obtain ⟨ms', hms, hall, -⟩ := object_iff.mp h
    obtain rfl := JsValue.obj.inj hms
    obtain ⟨schema, hschema, -⟩ := hall _ (mem_of_lookup hx)
    rw [hk] at hschema
    cases hschema

end Objects

end JsonSchema
