/-
# Normalizing numbers keeps values

`normalizeValue` turns every whole number of a value into an `int64`, at any depth.  The
comparator reads an integer as a double again, so that the two conversions cancel out
wherever the number is an `int64`; a number beyond that range is replaced by whatever
integer the conversion happens to give.

* `asFloats` : a value with its integers read as doubles, which is all that the comparator
  sees of them.
* `returned` : the number that the two conversions make of a number.
* `normalized_alike_iff` : when a value is equal to its normalized form.
-/
import JudgePlatform.Judge.ComparatorEquivalence
import JudgePlatform.Judge.TestDecoding

namespace Judge

open Matching

/-! ## Integers read as doubles -/

mutual

/-- A value with its integers read as doubles. -/
def asFloats : GoValue → GoValue
  | .int _ n => .float (.ofInt n)
  | .slice vs => .slice (asFloatsElements vs)
  | .map ms => .map (asFloatsMembers ms)
  | v => v

def asFloatsElements : List GoValue → List GoValue
  | [] => []
  | v :: vs => asFloats v :: asFloatsElements vs

def asFloatsMembers : List (String × GoValue) → List (String × GoValue)
  | [] => []
  | (k, v) :: ms => (k, asFloats v) :: asFloatsMembers ms

end

theorem asFloatsElements_eq (vs : List GoValue) : asFloatsElements vs = vs.map asFloats := by
  induction vs with
  | nil => rw [asFloatsElements, List.map_nil]
  | cons v vs ih => rw [asFloatsElements, List.map_cons, ih]

theorem asFloatsMembers_eq (ms : List (String × GoValue)) :
    asFloatsMembers ms = ms.map fun m => (m.1, asFloats m.2) := by
  induction ms with
  | nil => rw [asFloatsMembers, List.map_nil]
  | cons m ms ih =>
    obtain ⟨k, v⟩ := m
    rw [asFloatsMembers, List.map_cons, ih]

theorem getKey_asFloatsMembers (ms : List (String × GoValue)) (k : String) :
    GoValue.getKey (asFloatsMembers ms) k = (GoValue.getKey ms k).map asFloats := by
  unfold GoValue.getKey
  rw [asFloatsMembers_eq, List.find?_map, Option.map_map, Option.map_map]
  rfl

theorem isEmpty_asFloatsElements (vs : List GoValue) :
    (asFloatsElements vs).isEmpty = vs.isEmpty := by
  rw [asFloatsElements_eq, List.isEmpty_map]

theorem nilOrEmpty_asFloats (v : GoValue) : nilOrEmpty (asFloats v) = nilOrEmpty v := by
  cases v <;> simp [asFloats, nilOrEmpty, toSlice, isEmpty_asFloatsElements]

section Comparing

variable (tolerance : Binary64) (oi : Bool)

mutual

/-- **The comparator sees integers as doubles only.** -/
theorem compareValue_asFloats : ∀ a b : GoValue,
    compareValue tolerance oi (asFloats a) (asFloats b) = compareValue tolerance oi a b
  | .nil, b => by
    simp only [asFloats, compareValue, nilOrEmpty_asFloats]
  | .bool c, b => by
    cases b <;> simp [asFloats, compareValue, GoValue.deepEqual]
  | .string s, b => by
    cases b <;> simp [asFloats, compareValue, GoValue.deepEqual]
  | .elem k v, b => by
    cases b <;> simp [asFloats, compareValue, GoValue.deepEqual]
  | .nilSlice, b => by
    cases b <;> simp [asFloats, compareValue, toSlice, isEmpty_asFloatsElements]
  | .int kind n, b => by
    cases b <;> simp [asFloats, compareValue, asFloat64, nilOrEmpty, toSlice]
  | .float x, b => by
    cases b <;> simp [asFloats, compareValue, asFloat64]
  | .slice es, b => by
    have helements := compareSlices_asFloats es
    have hunordered := compareSlicesUnordered_asFloats es
    have hlength : ∀ vs, (asFloatsElements vs).length = vs.length := by
      intro vs
      rw [asFloatsElements_eq, List.length_map]
    have hnil := helements []
    have hnil' := hunordered []
    rw [show asFloatsElements [] = [] by rw [asFloatsElements]] at hnil hnil'
    cases b <;> simp [asFloats, compareValue, toSlice, nilOrEmpty, isEmpty_asFloatsElements,
      hlength, helements, hunordered, hnil, hnil']
  | .map em, b => by
    have hmembers := compareMembers_asFloats em
    have hlength : ∀ ms, (asFloatsMembers ms).length = ms.length := by
      intro ms
      rw [asFloatsMembers_eq, List.length_map]
    cases b <;> simp [asFloats, compareValue, toStringMap, nilOrEmpty, toSlice, hlength, hmembers]

theorem compareMembers_asFloats : ∀ em am : List (String × GoValue),
    compareMembers tolerance oi (asFloatsMembers em) (asFloatsMembers am) =
      compareMembers tolerance oi em am
  | [], am => by simp [asFloatsMembers, compareMembers]
  | (k, ev) :: em, am => by
    have hvalue := compareValue_asFloats ev
    have hmembers := compareMembers_asFloats em am
    rw [asFloatsMembers, compareMembers, compareMembers, getKey_asFloatsMembers]
    cases GoValue.getKey am k with
    | none => rfl
    | some av =>
      show (compareValue tolerance oi (asFloats ev) (asFloats av) && _) = _
      rw [hvalue, hmembers]

theorem compareSlices_asFloats : ∀ es as : List GoValue,
    compareSlices tolerance oi (asFloatsElements es) (asFloatsElements as) =
      compareSlices tolerance oi es as
  | [], as => by simp [asFloatsElements, compareSlices]
  | ev :: es, [] => by simp [asFloatsElements, compareSlices]
  | ev :: es, av :: as => by
    have hvalue := compareValue_asFloats ev
    have helements := compareSlices_asFloats es as
    simp only [asFloatsElements, compareSlices, hvalue, helements]

theorem compareSlicesUnordered_asFloats : ∀ es as : List GoValue,
    compareSlicesUnordered tolerance oi (asFloatsElements es) (asFloatsElements as) =
      compareSlicesUnordered tolerance oi es as
  | [], as => by simp [asFloatsElements, compareSlicesUnordered]
  | ev :: es, as => by
    have hvalue := compareValue_asFloats ev
    have helements := compareSlicesUnordered_asFloats es
    have hfind : (asFloatsElements as).findIdx? (compareValue tolerance oi (asFloats ev)) =
        as.findIdx? (compareValue tolerance oi ev) := by
      rw [asFloatsElements_eq, List.findIdx?_map]
      congr 1
      funext av
      exact hvalue av
    rw [asFloatsElements, compareSlicesUnordered, compareSlicesUnordered, hfind]
    cases as.findIdx? (compareValue tolerance oi ev) with
    | none => rfl
    | some i =>
      have herase : (asFloatsElements as).eraseIdx i = asFloatsElements (as.eraseIdx i) := by
        rw [asFloatsElements_eq, asFloatsElements_eq, List.eraseIdx_map]
      show compareSlicesUnordered tolerance oi _ _ = _
      rw [herase, helements]

end

end Comparing

/-! ## The number that comes back -/

/-- A number of a value, at any depth. -/
inductive NumberIn (q : ℚ) : GoValue → Prop
  | float {x : Binary64} (hx : x.toRat = some q) : NumberIn q (.float x)
  | slice {vs : List GoValue} {v : GoValue} (hv : v ∈ vs) (h : NumberIn q v) :
    NumberIn q (.slice vs)
  | map {ms : List (String × GoValue)} {m : String × GoValue} (hm : m ∈ ms)
    (h : NumberIn q m.2) : NumberIn q (.map ms)

/-- A number after its conversion to an `int64`, if it is whole, and back. -/
def returned (outside : ℚ → ℤ) (q : ℚ) : ℚ :=
  if q.den = 1 then Binary64.nearest (toInt64 outside q) else q

/-- What the comparator sees of a normalized value. -/
def seen (outside : ℚ → ℤ) (v : GoValue) : GoValue := asFloats (normalizeValue outside v)

section Returning

variable {outside : ℚ → ℤ}

theorem seen_slice (vs : List GoValue) :
    seen outside (.slice vs) = .slice (vs.map (seen outside)) := by
  have hnormalize : ∀ vs, normalizeElements outside vs = vs.map (normalizeValue outside) := by
    intro vs
    induction vs with
    | nil => rw [normalizeElements, List.map_nil]
    | cons v vs ih => rw [normalizeElements, List.map_cons, ih]
  unfold seen
  rw [normalizeValue, asFloats, asFloatsElements_eq, hnormalize, List.map_map]
  rfl

theorem seen_map (ms : List (String × GoValue)) :
    seen outside (.map ms) = .map (ms.map fun m => (m.1, seen outside m.2)) := by
  have hnormalize : ∀ ms, normalizeMembers outside ms =
      ms.map fun m => (m.1, normalizeValue outside m.2) := by
    intro ms
    induction ms with
    | nil => rw [normalizeMembers, List.map_nil]
    | cons m ms ih =>
      obtain ⟨k, v⟩ := m
      rw [normalizeMembers, List.map_cons, ih]
  unfold seen
  rw [normalizeValue, asFloats, asFloatsMembers_eq, hnormalize, List.map_map]
  rfl

theorem nearest_toRat {x : Binary64} {q : ℚ} (hx : x.toRat = some q) :
    Binary64.nearest q = q := by
  cases x with
  | finite p hp =>
    obtain rfl := Option.some.inj hx
    exact Binary64.nearest_of_representable hp
  | negZero =>
    obtain rfl := Option.some.inj hx
    exact Binary64.nearest_zero
  | inf s => cases hx
  | nan => cases hx

theorem abs_toInt64_le (houtside : ∀ q, -2 ^ 63 ≤ outside q ∧ outside q < 2 ^ 63) {q : ℚ}
    (hq : q.den = 1) : |toInt64 outside q| ≤ 2 ^ 63 := by
  have hcast : (q.num : ℚ) = q := Rat.coe_int_num_of_den_eq_one hq
  unfold toInt64
  split_ifs with hrange
  · rw [← hcast] at hrange
    obtain ⟨hlow, hhigh⟩ := hrange
    have hlow' : -2 ^ 63 ≤ q.num := by exact_mod_cast hlow
    have hhigh' : q.num < 2 ^ 63 := by exact_mod_cast hhigh
    exact abs_le.mpr ⟨hlow', hhigh'.le⟩
  · exact abs_le.mpr ⟨(houtside q).1, (houtside q).2.le⟩

/-- **A number is seen as what comes back of it.** -/
theorem seen_float (houtside : ∀ q, -2 ^ 63 ≤ outside q ∧ outside q < 2 ^ 63) {x : Binary64}
    {q : ℚ} (hx : x.toRat = some q) :
    ∃ y, seen outside (.float x) = .float y ∧ y.toRat = some (returned outside q) := by
  unfold seen returned
  rw [normalizeValue]
  by_cases hq : q.den = 1
  · have hwhole : isWholeNumber x = true := by
      unfold isWholeNumber
      rw [hx]
      exact decide_eq_true hq
    obtain ⟨hrep, hofInt⟩ := Binary64.ofInt_of_abs_le (abs_toInt64_le houtside hq)
    rw [if_pos hwhole, if_pos hq, hx, asFloats]
    exact ⟨_, rfl, congrArg Binary64.toRat hofInt⟩
  · have hwhole : isWholeNumber x = false := by
      unfold isWholeNumber
      rw [hx]
      exact decide_eq_false hq
    rw [if_neg (by rw [hwhole]; exact Bool.false_ne_true), if_neg hq]
    exact ⟨x, by simp only [asFloats], hx⟩

theorem returned_of_range {q : ℚ} (hnearest : Binary64.nearest q = q)
    (hrange : q.den = 1 → -2 ^ 63 ≤ q ∧ q < 2 ^ 63) : returned outside q = q := by
  unfold returned
  split_ifs with hq
  · unfold toInt64
    rw [if_pos (hrange hq), Rat.coe_int_num_of_den_eq_one hq]
    exact hnearest
  · rfl

/-- A value is seen as a decoded value. -/
theorem jsonValue_seen (houtside : ∀ q, -2 ^ 63 ≤ outside q ∧ outside q < 2 ^ 63) {v : GoValue}
    (hv : JsonValue v) : JsonValue (seen outside v) := by
  induction hv with
  | nil => simpa [seen, normalizeValue, asFloats] using JsonValue.nil
  | bool b => simpa [seen, normalizeValue, asFloats] using JsonValue.bool b
  | string s => simpa [seen, normalizeValue, asFloats] using JsonValue.string s
  | float hx =>
    obtain ⟨q, hq⟩ := Option.isSome_iff_exists.mp hx
    obtain ⟨y, hy, hback⟩ := seen_float houtside hq
    rw [hy]
    apply JsonValue.float
    rw [hback]
    rfl
  | slice _ ih =>
    rw [seen_slice]
    apply JsonValue.slice
    intro w hw
    obtain ⟨v, hv, rfl⟩ := List.mem_map.mp hw
    exact ih v hv
  | map hkeys _ ih =>
    rw [seen_map]
    apply JsonValue.map
    · rwa [List.map_map]
    · intro n hn
      obtain ⟨m, hm, rfl⟩ := List.mem_map.mp hn
      exact ih m hm

/-- The numbers seen are those that come back. -/
theorem numberIn_seen (houtside : ∀ q, -2 ^ 63 ≤ outside q ∧ outside q < 2 ^ 63) {v : GoValue}
    (hv : JsonValue v) {r : ℚ} (h : NumberIn r (seen outside v)) :
    ∃ q, NumberIn q v ∧ returned outside q = r := by
  induction hv with
  | nil =>
    simp only [seen, normalizeValue, asFloats] at h
    cases h
  | bool b =>
    simp only [seen, normalizeValue, asFloats] at h
    cases h
  | string s =>
    simp only [seen, normalizeValue, asFloats] at h
    cases h
  | float hx =>
    obtain ⟨q, hq⟩ := Option.isSome_iff_exists.mp hx
    obtain ⟨y, hy, hback⟩ := seen_float houtside hq
    rw [hy] at h
    cases h with
    | float hr => exact ⟨q, .float hq, Option.some.inj (hback.symm.trans hr)⟩
  | slice _ ih =>
    rw [seen_slice] at h
    cases h with
    | slice hw h =>
      obtain ⟨v, hv, rfl⟩ := List.mem_map.mp hw
      obtain ⟨q, hq, hr⟩ := ih v hv h
      exact ⟨q, .slice hv hq, hr⟩
  | map _ _ ih =>
    rw [seen_map] at h
    cases h with
    | map hn h =>
      obtain ⟨m, hm, rfl⟩ := List.mem_map.mp hn
      obtain ⟨q, hq, hr⟩ := ih m hm h
      exact ⟨q, .map hm hq, hr⟩

/-! ## Alike values have the same numbers -/

/-- Elements and members that come back as they were are alike. -/
theorem alike_seen (houtside : ∀ q, -2 ^ 63 ≤ outside q ∧ outside q < 2 ^ 63) (oi : Bool)
    {v : GoValue} (hv : JsonValue v) (h : ∀ q, NumberIn q v → returned outside q = q) :
    Alike oi (seen outside v) v := by
  induction hv with
  | nil => simp [Alike, seen, normalizeValue, asFloats, compareValue, nilOrEmpty]
  | bool b => simp [Alike, seen, normalizeValue, asFloats, compareValue, GoValue.deepEqual]
  | string s => simp [Alike, seen, normalizeValue, asFloats, compareValue, GoValue.deepEqual]
  | float hx =>
    obtain ⟨q, hq⟩ := Option.isSome_iff_exists.mp hx
    obtain ⟨y, hy, hback⟩ := seen_float houtside hq
    rw [h q (.float hq)] at hback
    rw [hy]
    exact ((alike_float hx (.float (hback ▸ rfl))).2).mpr ⟨y, rfl, hq.trans hback.symm⟩
  | @slice xs hxs ih =>
    have hseen : ∀ x ∈ xs.map (seen outside), JsonValue x :=
      (seen_slice xs ▸ jsonValue_seen houtside (.slice hxs)).elements
    have htogether : List.Forall₂ (Alike oi) (xs.map (seen outside)) xs := by
      rw [List.forall₂_map_left_iff, List.forall₂_same]
      exact fun x hx => ih x hx fun q hq => h q (.slice hx hq)
    rw [seen_slice]
    refine ((alike_slice _ (.slice hxs)).1).mpr (.inr ⟨xs, rfl, ?_⟩)
    rw [elementsAlike_iff hseen hxs fun x hx => alike_laws (hseen x hx)]
    cases oi with
    | true => exact ⟨xs, htogether, .refl xs⟩
    | false => exact htogether
  | @map ms hkeys hms ih =>
    obtain ⟨hkeys', -⟩ := (seen_map ms ▸ jsonValue_seen houtside (.map hkeys hms)).members
    rw [seen_map]
    refine ((alike_map _ (.map hkeys hms)).1).mpr ⟨ms, rfl, ?_⟩
    rw [membersAlike_iff hkeys' hkeys]
    refine ⟨ms, ?_, .refl ms⟩
    rw [List.forall₂_map_left_iff, List.forall₂_same]
    exact fun m hm => ⟨rfl, ih m hm fun q hq => h q (.map hm hq)⟩

end Returning

theorem together_exists {oi : Bool} {xs ys : List GoValue} (h : Together oi xs ys) :
    ∀ y ∈ ys, ∃ x ∈ xs, Alike oi x y := by
  cases oi with
  | true => exact h.exists_left
  | false => exact Matched.exists_left ⟨ys, h, .refl ys⟩

/-- **A number of a value is a number of every value it is alike to.** -/
theorem numberIn_of_alike {oi : Bool} {a b : GoValue} (ha : JsonValue a) (hb : JsonValue b)
    (h : Alike oi a b) {q : ℚ} (hq : NumberIn q b) : NumberIn q a := by
  induction ha generalizing b with
  | nil =>
    rcases ((alike_nil hb).1).mp h with rfl | rfl
    · cases hq
    · cases hq with
      | slice hv _ => cases hv
  | bool c =>
    rw [((alike_bool c hb).1).mp h] at hq
    cases hq
  | string s =>
    rw [((alike_string s hb).1).mp h] at hq
    cases hq
  | float hx =>
    obtain ⟨y, rfl, hxy⟩ := ((alike_float hx hb).1).mp h
    cases hq with
    | float hy => exact .float (hxy.trans hy)
  | @slice xs hxs ih =>
    rcases ((alike_slice xs hb).1).mp h with ⟨rfl, -⟩ | ⟨ys, rfl, hxy⟩
    · cases hq
    · cases hq with
      | slice hy hq =>
        obtain ⟨x, hx, halike⟩ := together_exists hxy.together _ hy
        exact .slice hx (ih x hx (hb.elements _ hy) halike hq)
  | @map ms hkeys hms ih =>
    obtain ⟨ns, rfl, hmn⟩ := ((alike_map ms hb).1).mp h
    obtain ⟨hkeysn, hvaluesn⟩ := hb.members
    cases hq with
    | map hn hq =>
      obtain ⟨m, hm, -, halike⟩ :=
        ((membersAlike_iff hkeys hkeysn).mp hmn).exists_left _ hn
      exact .map hm (ih m hm (hvaluesn _ hn) halike hq)

/-! ## When normalizing keeps values -/

/-- The comparator accepts a normalized value for the value, either way around. -/
def AcceptsNormalized (outside : ℚ → ℤ) (cfg : CompareConfig) (v : GoValue) : Prop :=
  compare (normalizeValue outside v) v cfg = true ∧ compare v (normalizeValue outside v) cfg = true

theorem NumberIn.nearest {q : ℚ} {v : GoValue} (h : NumberIn q v) : Binary64.nearest q = q := by
  induction h with
  | float hx => exact nearest_toRat hx
  | slice _ _ ih => exact ih
  | map _ _ ih => exact ih

/-- A decoded value has no integers to read as doubles. -/
theorem asFloats_jsonValue {v : GoValue} (hv : JsonValue v) : asFloats v = v := by
  induction hv with
  | nil => simp [asFloats]
  | bool b => simp [asFloats]
  | string s => simp [asFloats]
  | float hx => simp [asFloats]
  | slice _ ih =>
    rw [asFloats, asFloatsElements_eq, List.map_congr_left ih, List.map_id']
  | @map ms _ _ ih =>
    have hmembers : ms.map (fun m => (m.1, asFloats m.2)) = ms := by
      apply (List.map_congr_left fun m hm => ?_).trans (List.map_id ms)
      rw [ih m hm, id]
    rw [asFloats, asFloatsMembers_eq, hmembers]

theorem acceptsNormalized_iff {outside : ℚ → ℤ}
    (houtside : ∀ q, -2 ^ 63 ≤ outside q ∧ outside q < 2 ^ 63) {cfg : CompareConfig}
    (hcfg : cfg.floatTolerance = .zero) {v : GoValue} (hv : JsonValue v) :
    AcceptsNormalized outside cfg v ↔ Alike cfg.orderInsensitive (seen outside v) v := by
  have hfloats : ∀ a b, compare a b cfg = true ↔
      Alike cfg.orderInsensitive (asFloats a) (asFloats b) := by
    intro a b
    unfold Alike
    rw [compare_zero hcfg, compareValue_asFloats]
    rfl
  have hlaws : Laws cfg.orderInsensitive v := alike_laws hv
  have hsymm := hlaws.symm (seen outside v) (jsonValue_seen houtside hv)
  unfold AcceptsNormalized
  rw [hfloats, hfloats, asFloats_jsonValue hv]
  exact ⟨fun h => h.1, fun h => ⟨h, hsymm.mpr h⟩⟩

/-- **Normalizing keeps values in the `int64` range.**  At tolerance zero the comparator
accepts the normalized form of a decoded value, in both directions and whatever a
conversion out of range gives, exactly if every whole number in the value is an `int64`. -/
theorem normalized_alike_iff {cfg : CompareConfig} (hcfg : cfg.floatTolerance = .zero)
    {v : GoValue} (hv : Decoded v) :
    (∀ outside : ℚ → ℤ, (∀ q, -2 ^ 63 ≤ outside q ∧ outside q < 2 ^ 63) →
        AcceptsNormalized outside cfg v) ↔
      ∀ q : ℚ, NumberIn q v → q.den = 1 → -2 ^ 63 ≤ q ∧ q < 2 ^ 63 := by
  have hjson := hv.jsonValue
  constructor
  · intro h q hq hwhole
    -- a conversion that gives zero for all that is out of range
    have hzero : ∀ q : ℚ, -2 ^ 63 ≤ (fun _ : ℚ => (0 : ℤ)) q ∧ (fun _ : ℚ => (0 : ℤ)) q < 2 ^ 63 :=
      fun _ => ⟨by norm_num, by norm_num⟩
    have halike := (acceptsNormalized_iff hzero hcfg hjson).mp (h _ hzero)
    have hseen := numberIn_of_alike (jsonValue_seen hzero hjson) hjson halike hq
    obtain ⟨p, hp, hreturned⟩ := numberIn_seen hzero hjson hseen
    by_cases hrange : p.den = 1 → -2 ^ 63 ≤ p ∧ p < 2 ^ 63
    · rw [returned_of_range hp.nearest hrange] at hreturned
      rw [hreturned] at hrange
      exact hrange hwhole
    · obtain ⟨hden, hout⟩ := Classical.not_imp.mp hrange
      unfold returned toInt64 at hreturned
      rw [if_pos hden, if_neg hout, Int.cast_zero, Binary64.nearest_zero] at hreturned
      rw [← hreturned]
      norm_num
  · intro h outside houtside
    rw [acceptsNormalized_iff houtside hcfg hjson]
    apply alike_seen houtside _ hjson
    exact fun q hq => returned_of_range hq.nearest (h q hq)

/-- What a finite number is printed as decodes to it. -/
theorem decoded_finite {q : ℚ} (h : Binary64.Representable q) :
    Decoded (.float (.finite q h)) := by
  have hformat : JsonNumber.formatFloat (.finite q h) =
      some ⟨JsonNumber.formatFinite q, JsonNumber.isNumber_formatFinite h⟩ := by
    rw [JsonNumber.formatFloat]
  refine ⟨.num ⟨_, JsonNumber.isNumber_formatFinite h⟩, ?_⟩
  rw [GoValue.ofJson.eq_def]
  simp only [JsonNumber.parseFloat_formatFloat hformat]

theorem representable_pow {n : ℕ} (hn : n ≤ 64) : Binary64.Representable (2 ^ n) :=
  ⟨1, n, by norm_num, by omega, by omega, by rw [Int.cast_one, one_mul, zpow_natCast]⟩

/-- The number `2 ^ 62`, whatever the conversion gives for larger ones. -/
theorem normalized_alike_iff_pow :
    ∃ h, ∀ outside : ℚ → ℤ, (∀ q, -2 ^ 63 ≤ outside q ∧ outside q < 2 ^ 63) →
      AcceptsNormalized outside {} (.float (.finite (2 ^ 62) h)) := by
  have hrep : Binary64.Representable (2 ^ 62) := representable_pow (by decide)
  refine ⟨hrep, (normalized_alike_iff rfl (decoded_finite hrep)).mpr ?_⟩
  rintro q ⟨hq⟩ -
  obtain rfl := Option.some.inj hq
  norm_num

/-- **A number beyond the range is lost** where the conversion gives the least integer. -/
theorem normalized_alike_fails :
    ¬∀ (cfg : CompareConfig) (v : GoValue) (outside : ℚ → ℤ), cfg.floatTolerance = .zero →
      Decoded v → (∀ q, -2 ^ 63 ≤ outside q ∧ outside q < 2 ^ 63) →
        AcceptsNormalized outside cfg v := by
  intro h
  have hrange : ∀ q : ℚ, -2 ^ 63 ≤ (fun _ : ℚ => (-2 ^ 63 : ℤ)) q ∧
      (fun _ : ℚ => (-2 ^ 63 : ℤ)) q < 2 ^ 63 := fun _ => ⟨le_rfl, by norm_num⟩
  have hrep : Binary64.Representable (2 ^ 64) := representable_pow le_rfl
  have haccepts := h {} _ _ rfl (decoded_finite hrep) hrange
  rw [acceptsNormalized_iff hrange rfl (decoded_finite hrep).jsonValue] at haccepts
  have hseen := numberIn_of_alike (jsonValue_seen hrange (decoded_finite hrep).jsonValue)
    (decoded_finite hrep).jsonValue haccepts (.float rfl)
  obtain ⟨p, hp, hreturned⟩ := numberIn_seen hrange (decoded_finite hrep).jsonValue hseen
  cases hp with
  | float hp =>
    obtain rfl := Option.some.inj hp
    have hpow : Binary64.nearest (-2 ^ 63) = -2 ^ 63 :=
      Binary64.nearest_of_representable (representable_pow (show 63 ≤ 64 by decide)).neg
    unfold returned toInt64 at hreturned
    rw [if_pos (by norm_num), if_neg (by norm_num)] at hreturned
    have hcast : ((-2 ^ 63 : ℤ) : ℚ) = -2 ^ 63 := by norm_num
    rw [hcast, hpow] at hreturned
    norm_num at hreturned

end Judge
