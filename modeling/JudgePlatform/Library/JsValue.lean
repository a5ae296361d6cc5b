/-
# The data values of JavaScript

What `JSON.parse` makes and a document store holds: null, booleans, numbers,
strings, arrays and plain objects.  `undefined` is not such a value; a place that
may hold it is an `Option JsValue`.  An object keeps its members in the order in
which they were first set; the order in which they are listed puts array indices
first, as the language does.
-/
import JudgePlatform.Library.JsonNumber

inductive JsValue where
  | null
  | bool (b : Bool)
  | num (x : Binary64)
  | str (s : String)
  | arr (xs : List JsValue)
  | obj (members : List (String × JsValue))

namespace JsValue

/-! ## Properties -/

/-- The value of an own property. -/
def lookup {α : Type} (ms : List (String × α)) (k : String) : Option α :=
  (ms.find? fun m => m.1 = k).map Prod.snd

/-- `o[k] = v`, as far as a later reader of a defined value can tell: a member set
to `undefined` is no member. -/
def setMember (ms : List (String × JsValue)) (k : String) : Option JsValue → List (String × JsValue)
  | none => ms.filter fun m => m.1 ≠ k
  | some v =>
    if ms.any fun m => m.1 = k then ms.map fun m => if m.1 = k then (k, v) else m
    else ms ++ [(k, v)]

/-- `v.k`; reading a property of `null` is a `TypeError`, written here as `none`. -/
def property (k : String) : JsValue → Option (Option JsValue)
  | null => none
  | obj ms => some (lookup ms k)
  | _ => some none

/-- Several members set in order. -/
def setMembers (ms : List (String × JsValue)) :
    List (String × Option JsValue) → List (String × JsValue)
  | [] => ms
  | (k, v) :: changes => setMembers (setMember ms k v) changes

/-- `{ ...v }`. -/
def spread : JsValue → List (String × JsValue)
  | obj ms => ms
  | arr xs => xs.zipIdx.map fun e => (Text.itoa e.2, e.1)
  | str s => s.toList.zipIdx.map fun e => (Text.itoa e.2, str (String.ofList [e.1]))
  | _ => []

/-- `x ?? y`. -/
def orElse : Option JsValue → Option JsValue → Option JsValue
  | none, y => y
  | some null, y => y
  | some v, _ => some v

/-- `o.a ?? o.b ?? …`. -/
def firstOf (ms : List (String × JsValue)) : List String → Option JsValue
  | [] => none
  | [k] => lookup ms k
  | k :: ks => orElse (lookup ms k) (firstOf ms ks)

/-- The integer that a number is, by `Number.isInteger`. -/
def integerOf (x : Binary64) : Option ℤ :=
  x.toRat.bind fun q => if q.den = 1 then some q.num else none

/-- Whether a value counts as true in a condition. -/
def truthy : Option JsValue → Bool
  | none => false
  | some null => false
  | some (bool b) => b
  | some (num x) => !(x.eq .zero || x matches .nan)
  | some (str s) => s ≠ ""
  | some (arr _) => true
  | some (obj _) => true

/-! ## JSON -/

/-- `JSON.parse` on a number: out of range it is an infinity. -/
def ofNumber (n : NumberLit) : Binary64 :=
  match JsonNumber.parseFloat n with
  | some x => x
  | none => .inf (n.text.head? = some '-')

mutual

/-- The value that a JSON text stands for; a repeated key overwrites. -/
def ofJson : Json → JsValue
  | .null => null
  | .bool b => bool b
  | .num n => num (ofNumber n)
  | .str s => str s
  | .arr xs => arr (ofElements xs)
  | .obj ms => obj (ofMembers ms [])

def ofElements : List Json → List JsValue
  | [] => []
  | x :: xs => ofJson x :: ofElements xs

def ofMembers : List (String × Json) → List (String × JsValue) → List (String × JsValue)
  | [], acc => acc
  | (k, v) :: ms, acc => ofMembers ms (setMember acc k (some (ofJson v)))

end

/-- `JSON.parse`; `none` is its `SyntaxError`. -/
def parse (text : String) : Option JsValue := (Json.parse text).map ofJson

/-- The array index that a key spells, if it spells one. -/
def arrayIndex (k : String) : Option ℕ :=
  match Text.parseNat k.toList with
  | some n => if Nat.toDigits 10 n = k.toList ∧ n < 2 ^ 32 - 1 then some n else none
  | none => none

/-- Members in the order in which they are listed. -/
def listed {α : Type} (ms : List (String × α)) : List (String × α) :=
  ((ms.filter fun m => (arrayIndex m.1).isSome).insertionSort
      fun a b => (arrayIndex a.1).getD 0 ≤ (arrayIndex b.1).getD 0) ++
    ms.filter fun m => (arrayIndex m.1).isNone

mutual

/-- What `JSON.stringify` writes; a number that JSON cannot write is null. -/
def toJson : JsValue → Json
  | null => .null
  | bool b => .bool b
  | num .negZero => .num (JsonNumber.ofInt 0)
  | num x =>
    match JsonNumber.formatFloat x with
    | some n => .num n
    | none => .null
  | str s => .str s
  | arr xs => .arr (toElements xs)
  | obj ms => .obj (listed (toMembers ms))

def toElements : List JsValue → List Json
  | [] => []
  | x :: xs => toJson x :: toElements xs

def toMembers : List (String × JsValue) → List (String × Json)
  | [] => []
  | (k, v) :: ms => (k, toJson v) :: toMembers ms

end

/-- `JSON.stringify`. -/
def stringify (v : JsValue) : String := String.ofList (Json.print Json.jsEscape v.toJson)

/-! ## Lookups -/

section Lookup

variable {α : Type} {ms : List (String × α)} {k i : String}

@[simp] theorem lookup_nil : lookup ([] : List (String × α)) k = none := rfl

theorem lookup_cons (m : String × α) (ms : List (String × α)) (k : String) :
    lookup (m :: ms) k = if m.1 = k then some m.2 else lookup ms k := by
  unfold lookup
  rw [List.find?_cons]
  by_cases h : m.1 = k
  · simp [h]
  · simp [h]

theorem lookup_append (ms ms' : List (String × α)) (k : String) :
    lookup (ms ++ ms') k = (lookup ms k).or (lookup ms' k) := by
  induction ms with
  | nil => rfl
  | cons m ms ih =>
    rw [List.cons_append, lookup_cons, lookup_cons, ih]
    split <;> rfl

theorem mem_of_lookup {v : α} (h : lookup ms k = some v) : (k, v) ∈ ms := by
  unfold lookup at h
  obtain ⟨⟨i, w⟩, hm, rfl⟩ := Option.map_eq_some_iff.mp h
  have hi : i = k := by simpa using List.find?_some hm
  exact hi ▸ List.mem_of_find?_eq_some hm

theorem lookup_eq_none_iff : lookup ms k = none ↔ k ∉ ms.map Prod.fst := by
  unfold lookup
  rw [Option.map_eq_none_iff, List.find?_eq_none, List.mem_map]
  constructor
  · rintro h ⟨m, hm, rfl⟩
    exact h m hm (decide_eq_true rfl)
  · intro h m hm hk
    exact h ⟨m, hm, of_decide_eq_true hk⟩

/-- Among members with different keys, a lookup finds the one member of its key. -/
theorem lookup_eq_some_iff (h : (ms.map Prod.fst).Nodup) {v : α} :
    lookup ms k = some v ↔ (k, v) ∈ ms := by
  refine ⟨mem_of_lookup, fun hm => ?_⟩
  induction ms with
  | nil => cases hm
  | cons m ms ih =>
    rw [List.map_cons, List.nodup_cons] at h
    rw [lookup_cons]
    rcases List.mem_cons.mp hm with rfl | hm
    · rw [if_pos rfl]
    · have hne : m.1 ≠ k := fun hk => h.1 (List.mem_map.mpr ⟨(k, v), hm, hk.symm⟩)
      rw [if_neg hne]
      exact ih h.2 hm

/-- The order of the members does not matter. -/
theorem lookup_perm {ms' : List (String × α)} (h : (ms.map Prod.fst).Nodup) (hp : ms.Perm ms') :
    lookup ms k = lookup ms' k := by
  have h' : (ms'.map Prod.fst).Nodup := (hp.map Prod.fst).nodup_iff.mp h
  refine Option.ext fun v => ?_
  rw [lookup_eq_some_iff h, lookup_eq_some_iff h', hp.mem_iff]

theorem listed_perm (ms : List (String × α)) : (listed ms).Perm ms := by
  unfold listed
  refine ((List.perm_insertionSort _ _).append_right _).trans ?_
  simpa using List.filter_append_perm (fun m : String × α => (arrayIndex m.1).isSome) ms

end Lookup

section SetMember

variable {ms : List (String × JsValue)} {k i : String} {v : JsValue}

/-- The members of a key after it was set. -/
theorem mem_setMember_self : (k, v) ∈ setMember ms k (some v) := by
  simp only [setMember]
  split
  · rename_i h
    obtain ⟨m, hm, hk⟩ := List.any_eq_true.mp h
    exact List.mem_map.mpr ⟨m, hm, if_pos (of_decide_eq_true hk)⟩
  · exact List.mem_append_right _ (List.mem_singleton.mpr rfl)

theorem eq_of_mem_setMember_self {m : String × JsValue} (hm : m ∈ setMember ms k (some v))
    (hk : m.1 = k) : m.2 = v := by
  simp only [setMember] at hm
  split at hm
  · obtain ⟨m', -, rfl⟩ := List.mem_map.mp hm
    by_cases hk' : m'.1 = k
    · rw [if_pos hk']
    · rw [if_neg hk'] at hk
      exact absurd hk hk'
  · rename_i h
    rcases List.mem_append.mp hm with hm | hm
    · exact absurd (List.any_eq_true.mpr ⟨m, hm, decide_eq_true hk⟩) h
    · rw [List.mem_singleton.mp hm]

/-- The members of the other keys are as before. -/
theorem mem_setMember_of_ne (w : Option JsValue) {m : String × JsValue} (hk : m.1 ≠ k) :
    m ∈ setMember ms k w ↔ m ∈ ms := by
  cases w with
  | none =>
    simp only [setMember, List.mem_filter, decide_eq_true_eq]
    exact ⟨fun h => h.1, fun h => ⟨h, hk⟩⟩
  | some v =>
    simp only [setMember]
    split
    · rw [List.mem_map]
      constructor
      · rintro ⟨m', hm', rfl⟩
        by_cases hk' : m'.1 = k
        · rw [if_pos hk'] at hk
          exact absurd rfl hk
        · rw [if_neg hk']
          exact hm'
      · exact fun hm => ⟨m, hm, if_neg hk⟩
    · rw [List.mem_append, List.mem_singleton]
      refine or_iff_left fun hm => hk ?_
      rw [hm]

theorem lookup_setMember (ms : List (String × JsValue)) (k i : String) (v : JsValue) :
    lookup (setMember ms k (some v)) i = if i = k then some v else lookup ms i := by
  have happend : lookup (ms ++ [(k, v)]) i = (lookup ms i).or (if k = i then some v else none) := by
    rw [lookup_append, lookup_cons, lookup_nil]
  have hmap : ∀ ms : List (String × JsValue),
      lookup (ms.map fun m => if m.1 = k then (k, v) else m) i =
        if i = k then (lookup ms i).map fun _ => v else lookup ms i := by
    intro ms
    induction ms with
    | nil => simp
    | cons m ms ih =>
      rw [List.map_cons, lookup_cons, lookup_cons, ih]
      by_cases hi : i = k
      · subst hi
        by_cases hm : m.1 = i
        · simp [hm]
        · simp [hm]
      · by_cases hm : m.1 = k
        · have hmi : m.1 ≠ i := fun h => hi (h.symm.trans hm)
          rw [if_pos hm, if_neg fun h => hi h.symm, if_neg hmi, if_neg hi]
        · simp [hm, hi]
  simp only [setMember]
  by_cases h : (ms.any fun m => m.1 = k) = true
  · rw [if_pos h, hmap]
    split
    · rename_i hi
      obtain ⟨m, hm, hk⟩ := List.any_eq_true.mp h
      cases hl : lookup ms i with
      | some w => rfl
      | none =>
        rw [lookup_eq_none_iff] at hl
        exact absurd (List.mem_map.mpr ⟨m, hm, (of_decide_eq_true hk).trans hi.symm⟩) hl
    · rfl
  · rw [if_neg h, happend]
    by_cases hi : i = k
    · subst hi
      have hl : lookup ms i = none := by
        rw [lookup_eq_none_iff]
        intro hmem
        obtain ⟨m, hm, hk⟩ := List.mem_map.mp hmem
        exact h (List.any_eq_true.mpr ⟨m, hm, decide_eq_true hk⟩)
      simp [hl]
    · rw [if_neg hi, if_neg fun h => hi h.symm, Option.or_none]

/-- A change of one member leaves the others. -/
theorem lookup_setMember_of_ne (ms : List (String × JsValue)) {k i : String} (h : i ≠ k)
    (v : Option JsValue) : lookup (setMember ms k v) i = lookup ms i := by
  cases v with
  | some v => rw [lookup_setMember, if_neg h]
  | none =>
    unfold lookup setMember
    rw [List.find?_filter]
    congr 2
    funext m
    by_cases hm : m.1 = i
    · simp [hm, h]
    · simp [hm]

theorem lookup_setMember_self (ms : List (String × JsValue)) (k : String) (v : Option JsValue) :
    lookup (setMember ms k v) k = v := by
  cases v with
  | some v => rw [lookup_setMember, if_pos rfl]
  | none =>
    rw [lookup_eq_none_iff]
    intro hk
    obtain ⟨m, hm, hmk⟩ := List.mem_map.mp hk
    exact absurd hmk (of_decide_eq_true (List.mem_filter.mp hm).2)

theorem lookup_setMembers (changes : List (String × Option JsValue))
    (ms : List (String × JsValue)) {i : String} (h : i ∉ changes.map Prod.fst) :
    lookup (setMembers ms changes) i = lookup ms i := by
  induction changes generalizing ms with
  | nil => rfl
  | cons change changes ih =>
    obtain ⟨k, v⟩ := change
    rw [List.map_cons, List.mem_cons, not_or] at h
    rw [setMembers, ih _ h.2, lookup_setMember_of_ne ms h.1]

/-- A member that is set has its value unless it is set again. -/
theorem lookup_setMembers_cons (ms : List (String × JsValue)) {k : String} (v : Option JsValue)
    {rest : List (String × Option JsValue)} (h : k ∉ rest.map Prod.fst) :
    lookup (setMembers ms ((k, v) :: rest)) k = v := by
  rw [setMembers, lookup_setMembers _ _ h, lookup_setMember_self]

theorem setMembers_append (ms : List (String × JsValue))
    (changes changes' : List (String × Option JsValue)) :
    setMembers ms (changes ++ changes') = setMembers (setMembers ms changes) changes' := by
  induction changes generalizing ms with
  | nil => rfl
  | cons c changes ih => exact ih _

/-- Members that are not there are taken out without a trace. -/
theorem setMembers_eq_self {ms : List (String × JsValue)}
    {changes : List (String × Option JsValue)}
    (h : ∀ c ∈ changes, c.2 = none ∧ lookup ms c.1 = none) : setMembers ms changes = ms := by
  induction changes with
  | nil => rfl
  | cons c changes ih =>
    obtain ⟨k, v⟩ := c
    obtain ⟨hv, hk⟩ := h _ List.mem_cons_self
    obtain rfl : v = none := hv
    have hself : setMember ms k none = ms := by
      refine List.filter_eq_self.mpr fun m hm => decide_eq_true fun hmk => ?_
      exact lookup_eq_none_iff.mp hk (List.mem_map.mpr ⟨m, hm, hmk⟩)
    rw [setMembers, hself]
    exact ih fun c hc => h c (List.mem_cons_of_mem _ hc)

/-- Of two values set under one key the later one stays. -/
theorem setMember_setMember (ms : List (String × JsValue)) (k : String) (v w : JsValue) :
    setMember (setMember ms k (some v)) k (some w) = setMember ms k (some w) := by
  have hany : ((setMember ms k (some v)).any fun m => m.1 = k) = true :=
    List.any_eq_true.mpr ⟨(k, v), mem_setMember_self, decide_eq_true rfl⟩
  rw [setMember, if_pos hany]
  simp only [setMember]
  split
  · rw [List.map_map]
    refine List.map_congr_left fun m _ => ?_
    show (if (if m.1 = k then (k, v) else m).1 = k then (k, w) else _) = _
    by_cases hm : m.1 = k
    · simp [hm]
    · simp [hm]
  · rename_i h
    have hne : ∀ m ∈ ms, (if m.1 = k then (k, w) else m) = m := fun m hm =>
      if_neg fun hk => h (List.any_eq_true.mpr ⟨m, hm, decide_eq_true hk⟩)
    rw [List.map_append, List.map_congr_left hne, List.map_id']
    simp

end SetMember

/-! ## Values made by parsing -/

theorem ofMembers_append (ms ms' : List (String × Json)) (acc : List (String × JsValue)) :
    ofMembers (ms ++ ms') acc = ofMembers ms' (ofMembers ms acc) := by
  induction ms generalizing acc with
  | nil => rfl
  | cons m ms ih =>
    obtain ⟨k, v⟩ := m
    exact ih _

theorem ofElements_eq (xs : List Json) : ofElements xs = xs.map ofJson := by
  induction xs with
  | nil => rfl
  | cons x xs ih => rw [ofElements, ih, List.map_cons]

theorem toElements_eq (xs : List JsValue) : toElements xs = xs.map toJson := by
  induction xs with
  | nil => rfl
  | cons x xs ih => rw [toElements, ih, List.map_cons]

theorem toMembers_eq (ms : List (String × JsValue)) :
    toMembers ms = ms.map fun m => (m.1, m.2.toJson) := by
  induction ms with
  | nil => rfl
  | cons m ms ih =>
    obtain ⟨k, v⟩ := m
    rw [toMembers, ih, List.map_cons]

/-- A member that parsing found stands in the text. -/
theorem mem_of_lookup_ofMembers {ms : List (String × Json)} {acc : List (String × JsValue)}
    {k : String} {v : JsValue} (h : lookup (ofMembers ms acc) k = some v) :
    (∃ j, (k, j) ∈ ms ∧ ofJson j = v) ∨ lookup acc k = some v := by
  induction ms generalizing acc with
  | nil => exact Or.inr h
  | cons m ms ih =>
    obtain ⟨i, j⟩ := m
    rcases ih h with ⟨j', hj', hv⟩ | h
    · exact Or.inl ⟨j', List.mem_cons_of_mem _ hj', hv⟩
    · rw [lookup_setMember] at h
      split at h
      · rename_i hk
        exact Or.inl ⟨j, hk ▸ List.mem_cons_self, Option.some.inj h⟩
      · exact Or.inr h

/-- Parsing members with different keys reads each of them. -/
theorem lookup_ofMembers {ms : List (String × Json)} (h : (ms.map Prod.fst).Nodup)
    (acc : List (String × JsValue)) (k : String) :
    lookup (ofMembers ms acc) k = ((lookup ms k).map ofJson).or (lookup acc k) := by
  induction ms generalizing acc with
  | nil => rfl
  | cons m ms ih =>
    obtain ⟨i, j⟩ := m
    rw [List.map_cons, List.nodup_cons] at h
    rw [ofMembers, ih h.2, lookup_setMember, lookup_cons]
    by_cases hk : i = k
    · subst hk
      rw [lookup_eq_none_iff.mpr h.1]
      simp
    · rw [if_neg fun h => hk h.symm, if_neg hk]

/-- The members of an object as they are read. -/
theorem lookup_ofMembers_nil {ms : List (String × Json)} (h : (ms.map Prod.fst).Nodup)
    (k : String) : lookup (ofMembers ms []) k = (lookup ms k).map ofJson := by
  rw [lookup_ofMembers h, lookup_nil, Option.or_none]

/-- No text is read as NaN. -/
theorem ofNumber_ne_nan (n : NumberLit) : ofNumber n ≠ .nan := by
  unfold ofNumber JsonNumber.parseFloat Binary64.ofRat
  split_ifs with h
  · simp only
    split_ifs <;> simp
  · simp

/-- A 64-bit integer is read from its digits as the double that is next to it. -/
theorem ofNumber_ofInt {n : ℤ} (h : |n| ≤ 2 ^ 63) :
    ofNumber (JsonNumber.ofInt n) = .ofInt n := by
  obtain ⟨hrep, hofInt⟩ := Binary64.ofInt_of_abs_le h
  have hread : Binary64.ofRat (JsonNumber.readNumber (JsonNumber.ofInt n).text) = .ofInt n := by
    show Binary64.ofRat (JsonNumber.readNumber (Text.intDigits n)) = .ofRat n
    rw [JsonNumber.readNumber_intDigits]
  unfold ofNumber JsonNumber.parseFloat
  rw [hread, hofInt]
  simp only
  rw [if_neg]
  rintro ⟨hhead, hzero⟩
  obtain rfl : n = 0 := Binary64.nearest_intCast_eq_zero_iff.mp (Option.some.inj hzero)
  exact absurd hhead (by decide)

/-- **An integer of 53 bits survives being written and read as a number.** -/
theorem integerOf_ofInt {n : ℤ} (h : |n| < 2 ^ 53) :
    integerOf (ofNumber (JsonNumber.ofInt n)) = some n := by
  have hrep : Binary64.Representable (n : ℚ) := ⟨n, 0, h, by norm_num, by norm_num, by simp⟩
  have hread : Binary64.ofInt n = .finite n hrep := Binary64.ofRat_of_representable hrep
  rw [ofNumber_ofInt (by omega), hread]
  unfold integerOf
  rw [Binary64.toRat, Option.bind_some, if_pos (Rat.den_intCast n), Rat.num_intCast]

theorem ne_nan_of_ofJson {j : Json} {x : Binary64} (h : ofJson j = num x) : x ≠ .nan := by
  rw [ofJson.eq_def] at h
  cases j with
  | num n =>
    rw [← num.inj h]
    exact ofNumber_ne_nan n
  | _ => cases h

/-! ## Written and read again -/

/-- What is read of a value that was written. -/
def reread (v : JsValue) : JsValue := ofJson v.toJson

theorem parse_stringify (v : JsValue) : parse (stringify v) = some (reread v) := by
  unfold parse stringify
  rw [Json.parse_print]
  rfl

@[simp] theorem reread_str (s : String) : reread (str s) = str s := rfl

@[simp] theorem reread_bool (b : Bool) : reread (bool b) = bool b := rfl

theorem reread_ofInt {n : ℤ} (h : |n| ≤ 2 ^ 63) : reread (num (.ofInt n)) = num (.ofInt n) := by
  obtain ⟨hrep, hofInt⟩ := Binary64.ofInt_of_abs_le h
  rw [hofInt]
  have hparse := @JsonNumber.parseFloat_formatFloat (.finite (Binary64.nearest n) hrep) _ rfl
  show num (ofNumber _) = _
  unfold ofNumber
  rw [hparse]

theorem reread_arr (xs : List JsValue) : reread (arr xs) = arr (xs.map reread) := by
  show arr (ofElements (toElements xs)) = _
  rw [toElements_eq, ofElements_eq, List.map_map]
  rfl

/-- The members of an object that was written and read again. -/
def rereadMembers (ms : List (String × JsValue)) : List (String × JsValue) :=
  ofMembers (listed (toMembers ms)) []

theorem lookup_rereadMembers {ms : List (String × JsValue)} (h : (ms.map Prod.fst).Nodup)
    (k : String) : lookup (rereadMembers ms) k = (lookup ms k).map reread := by
  have hkeys : (toMembers ms).map Prod.fst = ms.map Prod.fst := by
    rw [toMembers_eq, List.map_map]
    rfl
  have hnodup : ((listed (toMembers ms)).map Prod.fst).Nodup := by
    rw [((listed_perm (toMembers ms)).map Prod.fst).nodup_iff, hkeys]
    exact h
  unfold rereadMembers
  rw [lookup_ofMembers_nil hnodup, lookup_perm hnodup (listed_perm _), toMembers_eq]
  clear hnodup hkeys h
  induction ms with
  | nil => rfl
  | cons m ms ih =>
    rw [List.map_cons, lookup_cons, lookup_cons]
    split
    · rfl
    · exact ih

/-! ## What a text tells of a value -/

theorem toJson_of_stringify {v w : JsValue} (h : stringify v = stringify w) :
    v.toJson = w.toJson := by
  have hparse := congrArg Json.parse h
  unfold stringify at hparse
  rwa [Json.parse_print, Json.parse_print, Option.some.injEq] at hparse

/-- Whether the members of a key all hold one value, and there is one. -/
structure Holds (ms : List (String × JsValue)) (k : String) (v : JsValue) : Prop where
  mem : (k, v) ∈ ms
  eq : ∀ m ∈ ms, m.1 = k → m.2 = v

theorem holds_setMember (ms : List (String × JsValue)) (k : String) (v : JsValue) :
    Holds (setMember ms k (some v)) k v :=
  ⟨mem_setMember_self, fun _ hm => eq_of_mem_setMember_self hm⟩

theorem Holds.setMember {ms : List (String × JsValue)} {k i : String} {v : JsValue}
    (h : Holds ms k v) (hk : k ≠ i) (w : Option JsValue) : Holds (setMember ms i w) k v :=
  ⟨(mem_setMember_of_ne w hk).mpr h.mem,
    fun m hm hmk => h.eq m ((mem_setMember_of_ne w (hmk ▸ hk)).mp hm) hmk⟩

/-- Objects of one text have the same keys. -/
theorem mem_keys_of_toJson_eq {ms ms' : List (String × JsValue)}
    (h : (obj ms).toJson = (obj ms').toJson) {k : String} (hk : k ∈ ms.map Prod.fst) :
    k ∈ ms'.map Prod.fst := by
  simp only [toJson, Json.obj.injEq] at h
  have hkeys : ∀ ms : List (String × JsValue),
      k ∈ (listed (toMembers ms)).map Prod.fst ↔ k ∈ ms.map Prod.fst := by
    intro ms
    rw [((listed_perm (toMembers ms)).map Prod.fst).mem_iff, toMembers_eq, List.map_map]
    rfl
  rw [← hkeys, ← h, hkeys]
  exact hk

/-- Objects of one text hold values of one text. -/
theorem Holds.toJson_eq {ms ms' : List (String × JsValue)} {k : String} {v v' : JsValue}
    (h : Holds ms k v) (h' : Holds ms' k v') (heq : (obj ms).toJson = (obj ms').toJson) :
    v.toJson = v'.toJson := by
  simp only [toJson, Json.obj.injEq] at heq
  have hmem : (k, v.toJson) ∈ listed (toMembers ms) := by
    rw [(listed_perm _).mem_iff, toMembers_eq]
    exact List.mem_map.mpr ⟨(k, v), h.mem, rfl⟩
  rw [heq, (listed_perm _).mem_iff, toMembers_eq] at hmem
  obtain ⟨m, hm, hmk⟩ := List.mem_map.mp hmem
  rw [Prod.mk.injEq] at hmk
  rw [← hmk.2, h'.eq m hm hmk.1]

end JsValue
