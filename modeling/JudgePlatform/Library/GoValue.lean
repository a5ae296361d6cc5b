/-
# Dynamic values of Go

What an `interface{}` holds after `json.Unmarshal` or after the decoding of a
BSON document, and what `encoding/json` and `reflect` do with it.  A BSON
document inside such a value is a `primitive.D`: a slice of `primitive.E`
elements, not a map.

* `GoValue.ofJson` : `json.Unmarshal` into an `interface{}`; the flag is false
  when a number is out of range, the one type error there is.
* `GoValue.marshal` : `json.Marshal`, with an error for NaN and the infinities.
-/
import JudgePlatform.Library.JsonNumber

/-- The integer types that decoding produces. -/
inductive IntKind where
  | int
  | int32
  | int64
  deriving DecidableEq

inductive GoValue where
  | nil
  | bool (b : Bool)
  | int (kind : IntKind) (n : ℤ)
  | float (x : Binary64)
  | string (s : String)
  /-- a slice variable that holds no slice, inside an `interface{}` -/
  | nilSlice
  /-- `[]interface{}` and `primitive.A` -/
  | slice (xs : List GoValue)
  /-- `map[string]interface{}`, the keys being distinct -/
  | map (members : List (String × GoValue))
  /-- `primitive.E` -/
  | elem (key : String) (value : GoValue)

namespace GoValue

/-! ## Maps -/

/-- `m[k] = v`. -/
def setKey (ms : List (String × GoValue)) (k : String) (v : GoValue) : List (String × GoValue) :=
  match ms with
  | [] => [(k, v)]
  | (k', v') :: ms => if k' = k then (k, v) :: ms else (k', v') :: setKey ms k v

/-- `m[k]`. -/
def getKey (ms : List (String × GoValue)) (k : String) : Option GoValue :=
  (ms.find? fun m => m.1 = k).map Prod.snd

/-! ## Decoding -/

mutual

/-- `json.Unmarshal` into an `interface{}`. -/
def ofJson : Json → GoValue × Bool
  | .null => (nil, true)
  | .bool b => (bool b, true)
  | .num n =>
    match JsonNumber.parseFloat n with
    | some x => (float x, true)
    | none => (nil, false)
  | .str s => (string s, true)
  | .arr xs => (slice (ofElements xs).1, (ofElements xs).2)
  | .obj ms => (map (ofMembers ms []).1, (ofMembers ms []).2)

def ofElements : List Json → List GoValue × Bool
  | [] => ([], true)
  | x :: xs => ((ofJson x).1 :: (ofElements xs).1, (ofJson x).2 && (ofElements xs).2)

/-- The members stored one after the other; a repeated key overwrites. -/
def ofMembers : List (String × Json) → List (String × GoValue) → List (String × GoValue) × Bool
  | [], acc => (acc, true)
  | (k, v) :: ms, acc =>
    ((ofMembers ms (setKey acc k (ofJson v).1)).1,
      (ofJson v).2 && (ofMembers ms (setKey acc k (ofJson v).1)).2)

end

/-! ## Encoding -/

/-- Map members in the order of their keys. -/
def sortMembers {α : Type} (ms : List (String × α)) : List (String × α) :=
  ms.insertionSort fun a b => a.1 ≤ b.1

/-- The results of a list of encodings up to the first error. -/
def collect {ε α : Type} : List (Except ε α) → Except ε (List α)
  | [] => .ok []
  | .error e :: _ => .error e
  | .ok a :: rs => (collect rs).map (a :: ·)

/-- The members of an encoded map up to the first error. -/
def collectMembers {ε α : Type} : List (String × Except ε α) → Except ε (List (String × α))
  | [] => .ok []
  | (_, .error e) :: _ => .error e
  | (k, .ok a) :: rs => (collectMembers rs).map ((k, a) :: ·)

/-- The text of a double that JSON has no number for. -/
def unsupportedText : Binary64 → String
  | .inf false => "+Inf"
  | .inf true => "-Inf"
  | _ => "NaN"

def marshalFloat (x : Binary64) : Except String Json :=
  match JsonNumber.formatFloat x with
  | some n => .ok (.num n)
  | none => .error ("json: unsupported value: " ++ unsupportedText x)

mutual

/-- `json.Marshal`; map keys are sorted, a `primitive.E` is a struct. -/
def marshal : GoValue → Except String Json
  | nil => .ok .null
  | bool b => .ok (.bool b)
  | int _ n => .ok (.num (JsonNumber.ofInt n))
  | float x => marshalFloat x
  | string s => .ok (.str s)
  | nilSlice => .ok .null
  | slice xs => (collect (marshalElements xs)).map .arr
  | map ms => (collectMembers (sortMembers (marshalMembers ms))).map .obj
  | elem k v => (marshal v).map fun j => .obj [("Key", .str k), ("Value", j)]

def marshalElements : List GoValue → List (Except String Json)
  | [] => []
  | x :: xs => marshal x :: marshalElements xs

def marshalMembers : List (String × GoValue) → List (String × Except String Json)
  | [] => []
  | (k, v) :: ms => (k, marshal v) :: marshalMembers ms

end

/-! ## Comparison -/

mutual

/-- `reflect.DeepEqual`. -/
def deepEqual : GoValue → GoValue → Bool
  | nil, nil => true
  | nilSlice, nilSlice => true
  | bool a, bool b => a = b
  | int k m, int l n => k = l ∧ m = n
  | float x, float y => x.eq y
  | string s, string t => s = t
  | slice xs, slice ys => deepEqualElements xs ys
  | map ms, map ns => ms.length = ns.length && deepEqualMembers ms ns
  | elem k v, elem l w => k = l && deepEqual v w
  | _, _ => false

def deepEqualElements : List GoValue → List GoValue → Bool
  | [], [] => true
  | x :: xs, y :: ys => deepEqual x y && deepEqualElements xs ys
  | _, _ => false

def deepEqualMembers : List (String × GoValue) → List (String × GoValue) → Bool
  | [], _ => true
  | (k, v) :: ms, ns =>
    (match getKey ns k with
      | some w => deepEqual v w
      | none => false) && deepEqualMembers ms ns

end

/-! ## Decoding without a type error -/

/-- The values that decoding finds no fault with. -/
def Decodable (j : Json) : Prop := (ofJson j).2 = true

theorem ofMembers_ok (ms : List (String × Json)) (acc : List (String × GoValue)) :
    (ofMembers ms acc).2 = true ↔ ∀ m ∈ ms, Decodable m.2 := by
  induction ms generalizing acc with
  | nil => simp [ofMembers]
  | cons m ms ih =>
    obtain ⟨k, v⟩ := m
    rw [ofMembers, Bool.and_eq_true, ih, List.forall_mem_cons]
    rfl

theorem ofElements_ok (xs : List Json) : (ofElements xs).2 = true ↔ ∀ x ∈ xs, Decodable x := by
  induction xs with
  | nil => simp [ofElements]
  | cons x xs ih =>
    rw [ofElements, Bool.and_eq_true, ih, List.forall_mem_cons]
    rfl

/-! ## Encoding without an error -/

section
variable {ε α : Type}

/-- Encoded elements are the written ones, each with its error set aside. -/
theorem eq_of_collect {rs : List (Except ε α)} {as : List α} (h : collect rs = .ok as) :
    rs = as.map .ok := by
  induction rs generalizing as with
  | nil =>
    cases h
    rfl
  | cons r rs ih =>
    cases r with
    | error e => cases h
    | ok a =>
      rw [collect] at h
      cases hrs : collect rs with
      | error e =>
        rw [hrs] at h
        cases h
      | ok as' =>
        rw [hrs] at h
        cases h
        rw [List.map_cons, ← ih hrs]

/-- Encoded members are the written ones, each with its error set aside. -/
theorem eq_of_collectMembers {ms : List (String × Except ε α)} {js : List (String × α)}
    (h : collectMembers ms = .ok js) : ms = js.map fun m => (m.1, .ok m.2) := by
  induction ms generalizing js with
  | nil =>
    cases h
    rfl
  | cons m ms ih =>
    obtain ⟨k, e⟩ := m
    cases e with
    | error e => cases h
    | ok a =>
      rw [collectMembers] at h
      cases hms : collectMembers ms with
      | error e =>
        rw [hms] at h
        cases h
      | ok js' =>
        rw [hms] at h
        cases h
        rw [List.map_cons, ← ih hms]

end

theorem marshalElements_eq (xs : List GoValue) : marshalElements xs = xs.map marshal := by
  induction xs with
  | nil => rfl
  | cons x xs ih => rw [marshalElements, ih, List.map_cons]

theorem marshalMembers_eq (ms : List (String × GoValue)) :
    marshalMembers ms = ms.map fun m => (m.1, m.2.marshal) := by
  induction ms with
  | nil => rfl
  | cons m ms ih => rw [marshalMembers, ih, List.map_cons]

/-- The integers inside a value have at most 64 bits. -/
inductive Sized : GoValue → Prop
  | nil : Sized nil
  | bool (b : Bool) : Sized (bool b)
  | int (kind : IntKind) {n : ℤ} (h : |n| ≤ 2 ^ 63) : Sized (int kind n)
  | float (x : Binary64) : Sized (float x)
  | string (s : String) : Sized (string s)
  | nilSlice : Sized nilSlice
  | slice {xs : List GoValue} (h : ∀ x ∈ xs, Sized x) : Sized (slice xs)
  | map {ms : List (String × GoValue)} (h : ∀ m ∈ ms, Sized m.2) : Sized (map ms)
  | elem (key : String) {v : GoValue} (h : Sized v) : Sized (elem key v)

/-- **What was marshalled is decoded without an error.** -/
theorem decodable_marshal {v : GoValue} (h : Sized v) {j : Json} (hj : v.marshal = .ok j) :
    Decodable j := by
  induction h generalizing j with
  | nil =>
    rw [marshal] at hj
    obtain rfl := Except.ok.inj hj
    unfold Decodable
    rw [ofJson.eq_def]
  | bool b =>
    rw [marshal] at hj
    obtain rfl := Except.ok.inj hj
    unfold Decodable
    rw [ofJson.eq_def]
  | string s =>
    rw [marshal] at hj
    obtain rfl := Except.ok.inj hj
    unfold Decodable
    rw [ofJson.eq_def]
  | nilSlice =>
    rw [marshal] at hj
    obtain rfl := Except.ok.inj hj
    unfold Decodable
    rw [ofJson.eq_def]
  | int kind hn =>
    rw [marshal] at hj
    obtain rfl := Except.ok.inj hj
    obtain ⟨x, hx⟩ := JsonNumber.parseFloat_ofInt hn
    unfold Decodable
    rw [ofJson.eq_def]
    simp only [hx]
  | float x =>
    rw [marshal] at hj
    unfold marshalFloat at hj
    cases hx : JsonNumber.formatFloat x with
    | none =>
      rw [hx] at hj
      cases hj
    | some n =>
      rw [hx] at hj
      obtain rfl := Except.ok.inj hj
      unfold Decodable
      rw [ofJson.eq_def]
      simp only [JsonNumber.parseFloat_formatFloat hx]
  | @slice xs _ ih =>
    rw [marshal] at hj
    cases hjs : collect (marshalElements xs) with
    | error e =>
      rw [hjs] at hj
      cases hj
    | ok js =>
      rw [hjs] at hj
      obtain rfl := Except.ok.inj hj
      have hxs := eq_of_collect hjs
      rw [marshalElements_eq] at hxs
      unfold Decodable
      rw [ofJson.eq_def]
      simp only
      rw [ofElements_ok]
      intro y hy
      have hmem : (.ok y : Except String Json) ∈ xs.map marshal := hxs ▸ List.mem_map_of_mem hy
      obtain ⟨x, hx, heq⟩ := List.mem_map.mp hmem
      exact ih x hx heq
  | @map ms _ ih =>
    rw [marshal] at hj
    cases hjs : collectMembers (sortMembers (marshalMembers ms)) with
    | error e =>
      rw [hjs] at hj
      cases hj
    | ok js =>
      rw [hjs] at hj
      obtain rfl := Except.ok.inj hj
      have hms := eq_of_collectMembers hjs
      unfold Decodable
      rw [ofJson.eq_def]
      simp only
      rw [ofMembers_ok]
      intro m hm
      have hmem : (m.1, (.ok m.2 : Except String Json)) ∈ sortMembers (marshalMembers ms) := by
        rw [hms]
        exact List.mem_map.mpr ⟨m, hm, rfl⟩
      unfold sortMembers at hmem
      rw [List.mem_insertionSort, marshalMembers_eq] at hmem
      obtain ⟨n, hn, heq⟩ := List.mem_map.mp hmem
      exact ih n hn (Prod.mk.inj heq).2
  | @elem key v _ ih =>
    rw [marshal] at hj
    cases hv : v.marshal with
    | error e =>
      rw [hv] at hj
      cases hj
    | ok j' =>
      rw [hv] at hj
      obtain rfl := Except.ok.inj hj
      unfold Decodable
      rw [ofJson.eq_def]
      simp only
      rw [ofMembers_ok]
      refine List.forall_mem_cons.mpr ⟨?_, List.forall_mem_cons.mpr ⟨ih hv, fun m h => ?_⟩⟩
      · unfold Decodable
        rw [ofJson.eq_def]
      · exact absurd h List.not_mem_nil

end GoValue
