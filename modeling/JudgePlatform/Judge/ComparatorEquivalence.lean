/-
# Exact comparison is an equivalence

At tolerance zero the comparator identifies equal numbers, a nil value with an empty slice
and, when the order does not count, slices that are permutations of each other.

* `Alike` : the comparison at tolerance zero, with its inversion for each kind of value.
* `alike_laws` : it is reflexive, symmetric and transitive on decoded JSON.
* `Rearranged` : that two values become equal by permuting slices at every level.
* `compare_exact` : both together, for the comparator of the judge.
-/
import JudgePlatform.Judge.Comparator
import JudgePlatform.Library.Matching

namespace Judge

open Matching

/-! ## Decoded values -/

/-- What JSON decodes to. -/
inductive JsonValue : GoValue → Prop
  | nil : JsonValue .nil
  | bool (b : Bool) : JsonValue (.bool b)
  | string (s : String) : JsonValue (.string s)
  | float {x : Binary64} (hx : x.toRat.isSome = true) : JsonValue (.float x)
  | slice {xs : List GoValue} (h : ∀ x ∈ xs, JsonValue x) : JsonValue (.slice xs)
  | map {ms : List (String × GoValue)} (hkeys : (ms.map Prod.fst).Nodup)
    (h : ∀ m ∈ ms, JsonValue m.2) : JsonValue (.map ms)

/-- The values that `json.Unmarshal` decodes a text into. -/
def Decoded (v : GoValue) : Prop := ∃ j, GoValue.ofJson j = (v, true)

/-- A number in range is finite. -/
theorem toRat_of_parseFloat {n : NumberLit} {x : Binary64}
    (h : JsonNumber.parseFloat n = some x) : x.toRat.isSome = true := by
  unfold JsonNumber.parseFloat at h
  cases hx : Binary64.ofRat (JsonNumber.readNumber n.text) with
  | inf s =>
    rw [hx] at h
    cases h
  | nan =>
    unfold Binary64.ofRat at hx
    split_ifs at hx
  | negZero =>
    unfold Binary64.ofRat at hx
    split_ifs at hx
  | finite q hq =>
    rw [hx] at h
    simp only at h
    split_ifs at h
    · obtain rfl := Option.some.inj h
      rfl
    · obtain rfl := Option.some.inj h
      rfl

theorem setKey_keys {ms : List (String × GoValue)} {k : String} {v : GoValue}
    (hkeys : (ms.map Prod.fst).Nodup) (h : ∀ m ∈ ms, JsonValue m.2) (hv : JsonValue v) :
    ((GoValue.setKey ms k v).map Prod.fst).Nodup ∧ (∀ m ∈ GoValue.setKey ms k v, JsonValue m.2) ∧
      ∀ l, l ∈ (GoValue.setKey ms k v).map Prod.fst ↔ l = k ∨ l ∈ ms.map Prod.fst := by
  induction ms with
  | nil => simp [GoValue.setKey, hv]
  | cons m ms ih =>
    obtain ⟨l, w⟩ := m
    obtain ⟨hl, hkeys⟩ := List.nodup_cons.mp hkeys
    obtain ⟨hw, hms⟩ := List.forall_mem_cons.mp h
    obtain ⟨hnodup, hvalues, hmem⟩ := ih hkeys hms
    rw [GoValue.setKey]
    split_ifs with hlk
    · subst hlk
      exact ⟨List.nodup_cons.mpr ⟨hl, hkeys⟩, List.forall_mem_cons.mpr ⟨hv, hms⟩, by simp⟩
    · refine ⟨List.nodup_cons.mpr ⟨?_, hnodup⟩, List.forall_mem_cons.mpr ⟨hw, hvalues⟩, ?_⟩
      · rw [hmem]
        exact not_or.mpr ⟨hlk, hl⟩
      · intro l'
        rw [List.map_cons, List.mem_cons, hmem, List.map_cons, List.mem_cons]
        tauto

theorem ofMembers_values {ms : List (String × Json)}
    (ih : ∀ m ∈ ms, GoValue.Decodable m.2 → JsonValue (GoValue.ofJson m.2).1)
    (hms : ∀ m ∈ ms, GoValue.Decodable m.2) {acc : List (String × GoValue)}
    (hkeys : (acc.map Prod.fst).Nodup) (hacc : ∀ m ∈ acc, JsonValue m.2) :
    JsonValue (.map (GoValue.ofMembers ms acc).1) := by
  induction ms generalizing acc with
  | nil => exact .map hkeys hacc
  | cons m ms ihms =>
    obtain ⟨k, j⟩ := m
    obtain ⟨hj, ih⟩ := List.forall_mem_cons.mp ih
    obtain ⟨hdecodable, hms⟩ := List.forall_mem_cons.mp hms
    obtain ⟨hnodup, hvalues, -⟩ := setKey_keys (k := k) hkeys hacc (hj hdecodable)
    rw [GoValue.ofMembers]
    exact ihms ih hms hnodup hvalues

/-- Induction on a JSON text. -/
theorem json_induct {motive : Json → Prop} (null : motive .null) (bool : ∀ b, motive (.bool b))
    (num : ∀ n, motive (.num n)) (str : ∀ s, motive (.str s))
    (arr : ∀ xs : List Json, (∀ x ∈ xs, motive x) → motive (.arr xs))
    (obj : ∀ ms : List (String × Json), (∀ m ∈ ms, motive m.2) → motive (.obj ms))
    (j : Json) : motive j := by
  refine @Json.rec motive (fun xs => ∀ x ∈ xs, motive x) (fun ms => ∀ m ∈ ms, motive m.2)
    (fun m => motive m.2) null bool num str arr obj ?_ ?_ ?_ ?_ ?_ j
  · exact fun x h => absurd h List.not_mem_nil
  · exact fun x xs hx hxs => List.forall_mem_cons.mpr ⟨hx, hxs⟩
  · exact fun m h => absurd h List.not_mem_nil
  · exact fun m ms hm hms => List.forall_mem_cons.mpr ⟨hm, hms⟩
  · exact fun k v hv => hv

theorem ofElements_values {xs : List Json}
    (ih : ∀ x ∈ xs, GoValue.Decodable x → JsonValue (GoValue.ofJson x).1)
    (hxs : ∀ x ∈ xs, GoValue.Decodable x) : ∀ v ∈ (GoValue.ofElements xs).1, JsonValue v := by
  induction xs with
  | nil => exact fun v h => absurd h List.not_mem_nil
  | cons x xs ihxs =>
    obtain ⟨hx, ih⟩ := List.forall_mem_cons.mp ih
    obtain ⟨hdecodable, hxs⟩ := List.forall_mem_cons.mp hxs
    rw [GoValue.ofElements]
    exact List.forall_mem_cons.mpr ⟨hx hdecodable, ihxs ih hxs⟩

/-- What is decoded without an error is a decoded value. -/
theorem jsonValue_ofJson (j : Json) (h : GoValue.Decodable j) :
    JsonValue (GoValue.ofJson j).1 := by
  unfold GoValue.Decodable at h
  induction j using json_induct with
  | null => exact .nil
  | bool b => exact .bool b
  | num n =>
    rw [GoValue.ofJson.eq_def] at h ⊢
    simp only at h ⊢
    cases hx : JsonNumber.parseFloat n with
    | none =>
      rw [hx] at h
      exact Bool.noConfusion h
    | some x => exact .float (toRat_of_parseFloat hx)
  | str t => exact .string t
  | arr xs ih =>
    have hxs : GoValue.ofJson (.arr xs) =
      (.slice (GoValue.ofElements xs).1, (GoValue.ofElements xs).2) := rfl
    rw [hxs] at h ⊢
    exact .slice (ofElements_values ih ((GoValue.ofElements_ok xs).mp h))
  | obj ms ih =>
    have hms : GoValue.ofJson (.obj ms) =
      (.map (GoValue.ofMembers ms []).1, (GoValue.ofMembers ms []).2) := rfl
    rw [hms] at h ⊢
    exact ofMembers_values ih ((GoValue.ofMembers_ok ms []).mp h) List.nodup_nil
      fun m h => absurd h List.not_mem_nil

theorem Decoded.jsonValue {v : GoValue} (h : Decoded v) : JsonValue v := by
  obtain ⟨j, hj⟩ := h
  have hvalue := jsonValue_ofJson j (congrArg Prod.snd hj)
  rwa [hj] at hvalue

/-! ## Comparison at tolerance zero -/

/-- Compared at tolerance zero, two values are equal. -/
def Alike (orderInsensitive : Bool) (a b : GoValue) : Prop :=
  compareValue .zero orderInsensitive a b = true

/-- The loops over two slices. -/
def ElementsAlike (orderInsensitive : Bool) (xs ys : List GoValue) : Prop :=
  xs.length = ys.length ∧
    (if orderInsensitive then compareSlicesUnordered .zero orderInsensitive xs ys
    else compareSlices .zero orderInsensitive xs ys) = true

/-- The loop over the keys of a map. -/
def MembersAlike (orderInsensitive : Bool) (ms ns : List (String × GoValue)) : Prop :=
  ms.length = ns.length ∧ compareMembers .zero orderInsensitive ms ns = true

/-- Nil or an empty slice. -/
def Hollow (v : GoValue) : Prop := v = .nil ∨ v = .slice []

/-- The order of finite numbers. -/
theorem le_iff {x y : Binary64} {p q : ℚ} (hp : x.toRat = some p) (hq : y.toRat = some q) :
    x.le y = true ↔ p ≤ q := by
  cases x with
  | inf s => cases hp
  | nan => cases hp
  | _ =>
    cases y with
    | inf s => cases hq
    | nan => cases hq
    | _ =>
      obtain rfl := Option.some.inj hp
      obtain rfl := Option.some.inj hq
      exact ⟨fun h => of_decide_eq_true h, fun h => decide_eq_true h⟩

/-- Finite numbers are equal when they are the same rational. -/
theorem eq_iff_toRat {x y : Binary64} (hx : x.toRat.isSome = true) (hy : y.toRat.isSome = true) :
    x.eq y = true ↔ x.toRat = y.toRat := by
  obtain ⟨p, hp⟩ := Option.isSome_iff_exists.mp hx
  obtain ⟨q, hq⟩ := Option.isSome_iff_exists.mp hy
  rw [Binary64.eq, Bool.and_eq_true, le_iff hp hq, le_iff hq hp, hp, hq, Option.some.injEq]
  exact ⟨fun h => le_antisymm h.1 h.2, fun h => ⟨h.le, h.ge⟩⟩

/-- No finite number is equal to an infinity. -/
theorem isSome_of_eq {x y : Binary64} (h : x.eq y = true) (hx : x.toRat.isSome = true) :
    y.toRat.isSome = true := by
  rw [Binary64.eq, Bool.and_eq_true] at h
  cases y with
  | nan =>
    cases x with
    | inf s => cases hx
    | nan => cases hx
    | _ => cases h.2
  | inf s =>
    cases x with
    | inf t => cases hx
    | nan => cases hx
    | _ =>
      cases s with
      | true => cases h.1
      | false => cases h.2
  | _ => rfl

theorem eq_symm {x y : Binary64} (h : x.eq y = true) : y.eq x = true := by
  rw [Binary64.eq, Bool.and_comm]
  exact h

theorem compareNumbers_zero {x y : Binary64} (hx : x.toRat.isSome = true)
    (hy : y.toRat.isSome = true) : compareNumbers x y .zero = true ↔ x.toRat = y.toRat := by
  have hzero : Binary64.zero.lt .zero = false := by
    unfold Binary64.lt
    rw [Bool.and_not_self]
  rw [compareNumbers, hzero, if_neg Bool.false_ne_true, eq_iff_toRat hx hy]

variable {oi : Bool} {b : GoValue}

theorem alike_nil (hb : JsonValue b) :
    (Alike oi .nil b ↔ Hollow b) ∧ (Alike oi b .nil ↔ Hollow b) := by
  unfold Alike Hollow
  cases hb with
  | @slice xs _ =>
    cases xs with
    | nil => simp [compareValue, nilOrEmpty, toSlice]
    | cons x xs => simp [compareValue, nilOrEmpty, toSlice]
  | _ => simp [compareValue, nilOrEmpty, toSlice]

theorem alike_bool (c : Bool) (hb : JsonValue b) :
    (Alike oi (.bool c) b ↔ b = .bool c) ∧ (Alike oi b (.bool c) ↔ b = .bool c) := by
  unfold Alike
  cases hb with
  | bool d =>
    simp only [compareValue, GoValue.deepEqual, decide_eq_true_eq, GoValue.bool.injEq]
    exact ⟨eq_comm, trivial⟩
  | _ => simp [compareValue, nilOrEmpty, toSlice, toStringMap, asFloat64, GoValue.deepEqual]

theorem alike_string (t : String) (hb : JsonValue b) :
    (Alike oi (.string t) b ↔ b = .string t) ∧ (Alike oi b (.string t) ↔ b = .string t) := by
  unfold Alike
  cases hb with
  | string u =>
    simp only [compareValue, GoValue.deepEqual, decide_eq_true_eq, GoValue.string.injEq]
    exact ⟨eq_comm, trivial⟩
  | _ => simp [compareValue, nilOrEmpty, toSlice, toStringMap, asFloat64, GoValue.deepEqual]

theorem alike_float {x : Binary64} (hx : x.toRat.isSome = true) (hb : JsonValue b) :
    (Alike oi (.float x) b ↔ ∃ y, b = .float y ∧ x.toRat = y.toRat) ∧
      (Alike oi b (.float x) ↔ ∃ y, b = .float y ∧ x.toRat = y.toRat) := by
  unfold Alike
  cases hb with
  | float hy =>
    simp only [compareValue, asFloat64, compareNumbers_zero hx hy, compareNumbers_zero hy hx,
      GoValue.float.injEq, exists_eq_left']
    exact ⟨trivial, eq_comm⟩
  | _ => simp [compareValue, nilOrEmpty, toSlice, toStringMap, asFloat64, GoValue.deepEqual]

theorem alike_slice (xs : List GoValue) (hb : JsonValue b) :
    (Alike oi (.slice xs) b ↔
        b = .nil ∧ xs = [] ∨ ∃ ys, b = .slice ys ∧ ElementsAlike oi xs ys) ∧
      (Alike oi b (.slice xs) ↔
        b = .nil ∧ xs = [] ∨ ∃ ys, b = .slice ys ∧ ElementsAlike oi ys xs) := by
  unfold Alike ElementsAlike
  cases hb with
  | nil => simp [compareValue, nilOrEmpty, toSlice]
  | slice h => simp [compareValue, toSlice]
  | _ => simp [compareValue, toSlice, toStringMap, asFloat64, GoValue.deepEqual]

theorem alike_map (ms : List (String × GoValue)) (hb : JsonValue b) :
    (Alike oi (.map ms) b ↔ ∃ ns, b = .map ns ∧ MembersAlike oi ms ns) ∧
      (Alike oi b (.map ms) ↔ ∃ ns, b = .map ns ∧ MembersAlike oi ns ms) := by
  unfold Alike MembersAlike
  cases hb with
  | nil => simp [compareValue, nilOrEmpty, toSlice]
  | map hkeys h => simp [compareValue, toStringMap]
  | _ => simp [compareValue, toSlice, toStringMap, asFloat64, GoValue.deepEqual]

/-! ## Elements and members -/

/-- What comparing a value comes to, once it is an equivalence. -/
structure Laws (orderInsensitive : Bool) (x : GoValue) : Prop where
  refl : Alike orderInsensitive x x
  symm : ∀ b, JsonValue b → (Alike orderInsensitive x b ↔ Alike orderInsensitive b x)
  trans : ∀ b c, JsonValue b → JsonValue c → Alike orderInsensitive x b →
    Alike orderInsensitive b c → Alike orderInsensitive x c

/-- The elements are alike, in order or in some order. -/
def Together (orderInsensitive : Bool) (xs ys : List GoValue) : Prop :=
  if orderInsensitive then Matched (Alike orderInsensitive) xs ys
  else List.Forall₂ (Alike orderInsensitive) xs ys

theorem compareSlices_iff {xs ys : List GoValue} (hlength : xs.length = ys.length) :
    compareSlices .zero oi xs ys = true ↔ List.Forall₂ (Alike oi) xs ys := by
  induction xs generalizing ys with
  | nil =>
    obtain rfl := List.length_eq_zero_iff.mp hlength.symm
    exact iff_of_true (by rw [compareSlices]) .nil
  | cons x xs ih =>
    cases ys with
    | nil => exact absurd hlength (Nat.succ_ne_zero _)
    | cons y ys =>
      rw [compareSlices, Bool.and_eq_true, ih (Nat.succ_injective hlength), List.forall₂_cons]
      rfl

/-- The loop over unordered slices is first fit. -/
theorem compareSlicesUnordered_firstFit (tolerance : Binary64) (xs ys : List GoValue) :
    compareSlicesUnordered tolerance oi xs ys = firstFit (compareValue tolerance oi) xs ys := by
  induction xs generalizing ys with
  | nil => rw [compareSlicesUnordered, firstFit]
  | cons x xs ih =>
    rw [compareSlicesUnordered, firstFit]
    cases ys.findIdx? fun y => compareValue tolerance oi x y with
    | none => rfl
    | some i => exact ih _

/-- Elements that are alike are matched. -/
theorem ElementsAlike.together {xs ys : List GoValue} (h : ElementsAlike oi xs ys) :
    Together oi xs ys := by
  obtain ⟨hlength, h⟩ := h
  cases oi with
  | true => exact matched_of_firstFit hlength (compareSlicesUnordered_firstFit _ xs ys ▸ h)
  | false => exact (compareSlices_iff hlength).mp h

/-- Matched elements are alike, if what is alike to something in common is alike. -/
theorem Together.elementsAlike {xs ys : List GoValue}
    (hsame : ∀ a ∈ xs, ∀ a' ∈ xs, ∀ b ∈ ys, ∀ b' ∈ ys,
      Alike oi a b → Alike oi a' b → Alike oi a b' → Alike oi a' b')
    (h : Together oi xs ys) : ElementsAlike oi xs ys := by
  cases oi with
  | true =>
    have hfits := firstFit_of_matched hsame h
    rw [← compareSlicesUnordered_firstFit] at hfits
    exact ⟨Matched.length_eq h, hfits⟩
  | false =>
    have hlength : xs.length = ys.length := List.Forall₂.length_eq h
    exact ⟨hlength, (compareSlices_iff hlength).mpr h⟩

variable {xs ys : List GoValue} (hx : ∀ x ∈ xs, JsonValue x) (hy : ∀ y ∈ ys, JsonValue y)
  (laws : ∀ x ∈ xs, Laws oi x)

include hx hy laws in
theorem elementsAlike_iff : ElementsAlike oi xs ys ↔ Together oi xs ys := by
  refine ⟨ElementsAlike.together, Together.elementsAlike ?_⟩
  intro a ha a' ha' b hb b' hb' hab ha'b hab'
  have hba : Alike oi b a := ((laws a ha).symm b (hy b hb)).mp hab
  have haa : Alike oi a' a := (laws a' ha').trans b a (hy b hb) (hx a ha) ha'b hba
  exact (laws a' ha').trans a b' (hx a ha) (hy b' hb') haa hab'

include hx hy laws in
theorem elementsAlike_iff' : ElementsAlike oi ys xs ↔ Together oi ys xs := by
  refine ⟨ElementsAlike.together, Together.elementsAlike ?_⟩
  intro a ha a' ha' b hb b' hb' hab ha'b hab'
  have hba : Alike oi b a := ((laws b hb).symm a (hy a ha)).mpr hab
  have hba' : Alike oi b a' := ((laws b hb).symm a' (hy a' ha')).mpr ha'b
  have hb'a : Alike oi b' a := ((laws b' hb').symm a (hy a ha)).mpr hab'
  have hb'b : Alike oi b' b := (laws b' hb').trans a b (hy a ha) (hx b hb) hb'a hab
  have hb'a' : Alike oi b' a' := (laws b' hb').trans b a' (hx b hb) (hy a' ha') hb'b hba'
  exact ((laws b' hb').symm a' (hy a' ha')).mp hb'a'

include hy laws in
theorem together_symm : Together oi xs ys ↔ Together oi ys xs := by
  cases oi with
  | true =>
    constructor
    · intro h
      exact Matched.symm h fun a ha b hb hab => ((laws a ha).symm b (hy b hb)).mp hab
    · intro h
      exact Matched.symm h fun b hb a ha hba => ((laws a ha).symm b (hy b hb)).mpr hba
  | false =>
    constructor
    · intro h
      refine List.Forall₂.flip ((forall₂_mem h).imp ?_)
      exact fun a b h => ((laws a h.1).symm b (hy b h.2.1)).mp h.2.2
    · intro h
      refine List.Forall₂.flip ((forall₂_mem h).imp ?_)
      exact fun b a h => ((laws a h.2.1).symm b (hy b h.1)).mpr h.2.2

include hy laws in
theorem together_trans {zs : List GoValue} (hz : ∀ z ∈ zs, JsonValue z)
    (h : Together oi xs ys) (h' : Together oi ys zs) : Together oi xs zs := by
  cases oi with
  | true =>
    refine Matched.trans h h' ?_
    exact fun a ha b hb c hc => (laws a ha).trans b c (hy b hb) (hz c hc)
  | false =>
    refine forall₂_trans ?_ (forall₂_mem h) (forall₂_mem h')
    rintro a b c ⟨ha, hb, hab⟩ ⟨-, hc, hbc⟩
    exact (laws a ha).trans b c (hy b hb) (hz c hc) hab hbc

include laws in
theorem together_refl : Together oi xs xs := by
  have h : List.Forall₂ (Alike oi) xs xs := List.forall₂_same.mpr fun x hx => (laws x hx).refl
  cases oi with
  | true => exact ⟨xs, h, .refl xs⟩
  | false => exact h

/-! ## Members of maps -/

/-- Two members with one key and values that are alike. -/
def MemberAlike (oi : Bool) (m n : String × GoValue) : Prop := m.1 = n.1 ∧ Alike oi m.2 n.2

theorem getKey_eq_some {ns : List (String × GoValue)} (hkeys : (ns.map Prod.fst).Nodup)
    {k : String} {v : GoValue} : GoValue.getKey ns k = some v ↔ (k, v) ∈ ns := by
  induction ns with
  | nil => simp [GoValue.getKey]
  | cons n ns ih =>
    obtain ⟨l, w⟩ := n
    obtain ⟨hl, hkeys⟩ := List.nodup_cons.mp hkeys
    unfold GoValue.getKey at ih ⊢
    rw [List.mem_cons, Prod.mk.injEq]
    by_cases hlk : l = k
    · subst hlk
      simp only [List.find?_cons, decide_true, Option.map_some, Option.some.injEq]
      constructor
      · exact fun h => .inl ⟨trivial, h.symm⟩
      · rintro (⟨-, h⟩ | h)
        · exact h.symm
        · exact absurd (List.mem_map_of_mem (f := Prod.fst) h) hl
    · simp only [List.find?_cons, hlk, decide_false]
      rw [ih hkeys]
      constructor
      · exact fun h => .inr h
      · rintro (⟨h, -⟩ | h)
        · exact absurd h.symm hlk
        · exact h

theorem compareMembers_iff {ms ns : List (String × GoValue)} :
    compareMembers .zero oi ms ns = true ↔
      ∀ m ∈ ms, ∃ v, GoValue.getKey ns m.1 = some v ∧ Alike oi m.2 v := by
  induction ms with
  | nil => simp [compareMembers]
  | cons m ms ih =>
    obtain ⟨k, v⟩ := m
    rw [compareMembers, List.forall_mem_cons]
    cases hk : GoValue.getKey ns k with
    | none => simp
    | some w =>
      simp only [Bool.and_eq_true, ih, Option.some.injEq, exists_eq_left']
      rfl

/-- **Maps are compared by matching their members.** -/
theorem membersAlike_iff {ms ns : List (String × GoValue)} (hm : (ms.map Prod.fst).Nodup)
    (hn : (ns.map Prod.fst).Nodup) :
    MembersAlike oi ms ns ↔ Matched (MemberAlike oi) ms ns := by
  unfold MembersAlike
  rw [compareMembers_iff]
  constructor
  · rintro ⟨hlength, hms⟩
    obtain ⟨ns', hns'⟩ : ∃ ns', List.Forall₂ (fun m n => n ∈ ns ∧ MemberAlike oi m n) ms ns' := by
      clear hlength hm
      induction ms with
      | nil => exact ⟨[], .nil⟩
      | cons m ms ih =>
        obtain ⟨⟨v, hv, hmv⟩, hms⟩ := List.forall_mem_cons.mp hms
        obtain ⟨ns', hns'⟩ := ih hms
        exact ⟨(m.1, v) :: ns', .cons ⟨(getKey_eq_some hn).mp hv, rfl, hmv⟩ hns'⟩
    have hkeys : ns'.map Prod.fst = ms.map Prod.fst := by
      clear hlength hm hms
      induction hns' with
      | nil => rfl
      | cons h _ ih => rw [List.map_cons, List.map_cons, ih, h.2.1]
    have hnodup : ns'.Nodup := List.Nodup.of_map Prod.fst (hkeys ▸ hm)
    have hsubset : ns' ⊆ ns := by
      intro n hn'
      obtain ⟨i, hi, rfl⟩ := List.mem_iff_getElem.mp hn'
      obtain ⟨hlength', hget⟩ := List.forall₂_iff_get.mp hns'
      exact (hget i (by rw [hlength']; exact hi) hi).1
    have hperm : ns'.Perm ns := by
      refine (hnodup.subperm hsubset).perm_of_length_le ?_
      rw [← hns'.length_eq, hlength]
    exact ⟨ns', hns'.imp fun m n h => h.2, hperm⟩
  · intro h
    refine ⟨h.length_eq, fun m hmem => ?_⟩
    obtain ⟨ns', hns', hperm⟩ := h
    obtain ⟨i, hi, rfl⟩ := List.mem_iff_getElem.mp hmem
    obtain ⟨hlength, hget⟩ := List.forall₂_iff_get.mp hns'
    have hi' : i < ns'.length := hlength ▸ hi
    obtain ⟨hkey, hvalue⟩ := hget i hi hi'
    refine ⟨ns'[i].2, (getKey_eq_some hn).mpr ?_, hvalue⟩
    have hkey : ms[i].1 = ns'[i].1 := hkey
    rw [hkey]
    exact hperm.mem_iff.mp (List.getElem_mem hi')

/-! ## The laws -/

theorem elementsAlike_nil (xs : List GoValue) :
    (ElementsAlike oi [] xs ↔ xs = []) ∧ (ElementsAlike oi xs [] ↔ xs = []) := by
  have hnil : ElementsAlike oi [] [] := by
    refine ⟨rfl, ?_⟩
    cases oi with
    | true => simp [compareSlicesUnordered]
    | false => simp [compareSlices]
  constructor
  · exact ⟨fun h => List.length_eq_zero_iff.mp h.1.symm, fun h => h ▸ hnil⟩
  · exact ⟨fun h => List.length_eq_zero_iff.mp h.1, fun h => h ▸ hnil⟩

theorem JsonValue.elements {xs : List GoValue} (h : JsonValue (.slice xs)) :
    ∀ x ∈ xs, JsonValue x := by
  cases h with
  | slice h => exact h

theorem JsonValue.members {ms : List (String × GoValue)} (h : JsonValue (.map ms)) :
    (ms.map Prod.fst).Nodup ∧ ∀ m ∈ ms, JsonValue m.2 := by
  cases h with
  | map hkeys h => exact ⟨hkeys, h⟩

theorem laws_nil : Laws oi .nil := by
  refine ⟨((alike_nil .nil).1).mpr (.inl rfl), fun b hb => ?_, fun b d hb hd hab hbd => ?_⟩
  · rw [(alike_nil hb).1, (alike_nil hb).2]
  · rcases ((alike_nil hb).1).mp hab with rfl | rfl
    · exact hbd
    · refine ((alike_nil hd).1).mpr ?_
      rcases ((alike_slice [] hd).1).mp hbd with ⟨rfl, -⟩ | ⟨ys, rfl, hys⟩
      · exact .inl rfl
      · rw [((elementsAlike_nil ys).1).mp hys]
        exact .inr rfl

theorem laws_slice {xs : List GoValue} (h : ∀ x ∈ xs, JsonValue x)
    (ih : ∀ x ∈ xs, Laws oi x) : Laws oi (.slice xs) := by
  refine ⟨?_, fun b hb => ?_, fun b d hb hd hab hbd => ?_⟩
  · have hself : ElementsAlike oi xs xs := (elementsAlike_iff h h ih).mpr (together_refl ih)
    exact ((alike_slice xs (.slice h)).1).mpr (.inr ⟨xs, rfl, hself⟩)
  · rw [(alike_slice xs hb).1, (alike_slice xs hb).2]
    refine or_congr Iff.rfl (exists_congr fun ys => and_congr_right ?_)
    rintro rfl
    have hy := hb.elements
    rw [elementsAlike_iff h hy ih, elementsAlike_iff' h hy ih, together_symm hy ih]
  · rcases ((alike_slice xs hb).1).mp hab with ⟨rfl, rfl⟩ | ⟨ys, rfl, hxy⟩
    · rcases ((alike_nil hd).1).mp hbd with rfl | rfl
      · exact ((alike_slice [] hd).1).mpr (.inl ⟨rfl, rfl⟩)
      · exact ((alike_slice [] hd).1).mpr (.inr ⟨[], rfl, ((elementsAlike_nil []).1).mpr rfl⟩)
    · rcases ((alike_slice ys hd).1).mp hbd with ⟨rfl, rfl⟩ | ⟨zs, rfl, hyz⟩
      · exact ((alike_slice xs hd).1).mpr (.inl ⟨rfl, ((elementsAlike_nil xs).2).mp hxy⟩)
      · have hxz : Together oi xs zs :=
          together_trans hb.elements ih hd.elements hxy.together hyz.together
        have helements := (elementsAlike_iff h hd.elements ih).mpr hxz
        exact ((alike_slice xs hd).1).mpr (.inr ⟨zs, rfl, helements⟩)

theorem laws_map {ms : List (String × GoValue)} (hkeys : (ms.map Prod.fst).Nodup)
    (h : ∀ m ∈ ms, JsonValue m.2) (ih : ∀ m ∈ ms, Laws oi m.2) : Laws oi (.map ms) := by
  refine ⟨?_, fun b hb => ?_, fun b d hb hd hab hbd => ?_⟩
  · have hself : Matched (MemberAlike oi) ms ms :=
      ⟨ms, List.forall₂_same.mpr fun m hm => ⟨rfl, (ih m hm).refl⟩, .refl ms⟩
    exact ((alike_map ms (.map hkeys h)).1).mpr
      ⟨ms, rfl, (membersAlike_iff hkeys hkeys).mpr hself⟩
  · rw [(alike_map ms hb).1, (alike_map ms hb).2]
    refine exists_congr fun ns => and_congr_right ?_
    rintro rfl
    obtain ⟨hkeys', hvalues⟩ := hb.members
    rw [membersAlike_iff hkeys hkeys', membersAlike_iff hkeys' hkeys]
    constructor
    · intro hmatched
      refine hmatched.symm fun m hm n hn hmn => ⟨hmn.1.symm, ?_⟩
      exact ((ih m hm).symm n.2 (hvalues n hn)).mp hmn.2
    · intro hmatched
      refine hmatched.symm fun n hn m hm hnm => ⟨hnm.1.symm, ?_⟩
      exact ((ih m hm).symm n.2 (hvalues n hn)).mpr hnm.2
  · obtain ⟨ns, rfl, hmn⟩ := ((alike_map ms hb).1).mp hab
    obtain ⟨os, rfl, hno⟩ := ((alike_map ns hd).1).mp hbd
    obtain ⟨hkeysn, hvaluesn⟩ := hb.members
    obtain ⟨hkeyso, hvalueso⟩ := hd.members
    rw [membersAlike_iff hkeys hkeysn] at hmn
    rw [membersAlike_iff hkeysn hkeyso] at hno
    refine ((alike_map ms hd).1).mpr ⟨os, rfl, (membersAlike_iff hkeys hkeyso).mpr ?_⟩
    refine hmn.trans hno fun m hm n hn o ho hmn hno => ⟨hmn.1.trans hno.1, ?_⟩
    exact (ih m hm).trans n.2 o.2 (hvaluesn n hn) (hvalueso o ho) hmn.2 hno.2

/-- **At tolerance zero the comparison is an equivalence** on decoded values. -/
theorem alike_laws {a : GoValue} (ha : JsonValue a) : Laws oi a := by
  induction ha with
  | nil => exact laws_nil
  | bool c =>
    refine ⟨((alike_bool c (.bool c)).1).mpr rfl, fun b hb => ?_, fun b d hb hd hab hbd => ?_⟩
    · rw [(alike_bool c hb).1, (alike_bool c hb).2]
    · rw [((alike_bool c hb).1).mp hab] at hbd
      exact hbd
  | string t =>
    refine ⟨((alike_string t (.string t)).1).mpr rfl, fun b hb => ?_, fun b d hb hd hab hbd => ?_⟩
    · rw [(alike_string t hb).1, (alike_string t hb).2]
    · rw [((alike_string t hb).1).mp hab] at hbd
      exact hbd
  | float hx =>
    refine ⟨((alike_float hx (.float hx)).1).mpr ⟨_, rfl, rfl⟩, fun b hb => ?_,
      fun b d hb hd hab hbd => ?_⟩
    · rw [(alike_float hx hb).1, (alike_float hx hb).2]
    · obtain ⟨y, rfl, hxy⟩ := ((alike_float hx hb).1).mp hab
      have hy : y.toRat.isSome = true := hxy ▸ hx
      obtain ⟨z, rfl, hyz⟩ := ((alike_float hy hd).1).mp hbd
      exact ((alike_float hx hd).1).mpr ⟨z, rfl, hxy.trans hyz⟩
  | slice h ih => exact laws_slice h ih
  | map hkeys h ih => exact laws_map hkeys h ih

/-! ## Rearrangement -/

/-- Two values become equal when slices are permuted at every level, a nil value being an
empty slice.  Numbers are equal as they are in Go, where there are two zeros, and the
members of a map are in no order. -/
inductive Rearranged : GoValue → GoValue → Prop
  | refl (v : GoValue) : Rearranged v v
  | symm {v w : GoValue} (h : Rearranged v w) : Rearranged w v
  | trans {v w u : GoValue} (h : Rearranged v w) (h' : Rearranged w u) : Rearranged v u
  | number {x y : Binary64} (h : x.eq y = true) : Rearranged (.float x) (.float y)
  | nil_empty : Rearranged .nil (.slice [])
  | permuted {xs ys : List GoValue} (h : xs.Perm ys) : Rearranged (.slice xs) (.slice ys)
  | element {pre post : List GoValue} {x y : GoValue} (h : Rearranged x y) :
    Rearranged (.slice (pre ++ x :: post)) (.slice (pre ++ y :: post))
  | unordered {ms ns : List (String × GoValue)} (h : ms.Perm ns) : Rearranged (.map ms) (.map ns)
  | member {pre post : List (String × GoValue)} {k : String} {v w : GoValue}
    (h : Rearranged v w) :
    Rearranged (.map (pre ++ (k, v) :: post)) (.map (pre ++ (k, w) :: post))

theorem rearranged_elements {xs ys : List GoValue} (h : List.Forall₂ Rearranged xs ys) :
    Rearranged (.slice xs) (.slice ys) := by
  suffices hpre : ∀ pre, Rearranged (.slice (pre ++ xs)) (.slice (pre ++ ys)) from hpre []
  induction h with
  | nil => exact fun pre => .refl _
  | @cons x y xs ys hxy _ ih =>
    intro pre
    have hrest := ih (pre ++ [y])
    rw [List.append_assoc, List.append_assoc] at hrest
    exact .trans (.element hxy) hrest

theorem rearranged_members {ms ns : List (String × GoValue)}
    (h : List.Forall₂ (fun m n => m.1 = n.1 ∧ Rearranged m.2 n.2) ms ns) :
    Rearranged (.map ms) (.map ns) := by
  suffices hpre : ∀ pre, Rearranged (.map (pre ++ ms)) (.map (pre ++ ns)) from hpre []
  induction h with
  | nil => exact fun pre => .refl _
  | @cons m n ms ns hmn _ ih =>
    intro pre
    obtain ⟨k, v⟩ := m
    obtain ⟨l, w⟩ := n
    obtain ⟨rfl, hvw⟩ := hmn
    have hrest := ih (pre ++ [(k, w)])
    rw [List.append_assoc, List.append_assoc] at hrest
    exact .trans (.member hvw) hrest

/-- Values that are alike are rearrangements of each other. -/
theorem rearranged_of_alike {a b : GoValue} (ha : JsonValue a) (hb : JsonValue b)
    (h : Alike true a b) : Rearranged a b := by
  induction ha generalizing b with
  | nil =>
    rcases ((alike_nil hb).1).mp h with rfl | rfl
    · exact .refl _
    · exact .nil_empty
  | bool c =>
    rw [((alike_bool c hb).1).mp h]
    exact .refl _
  | string t =>
    rw [((alike_string t hb).1).mp h]
    exact .refl _
  | float hx =>
    obtain ⟨y, rfl, hxy⟩ := ((alike_float hx hb).1).mp h
    exact .number ((eq_iff_toRat hx (hxy ▸ hx)).mpr hxy)
  | @slice xs hxs ih =>
    rcases ((alike_slice xs hb).1).mp h with ⟨rfl, rfl⟩ | ⟨ys, rfl, hxy⟩
    · exact .symm .nil_empty
    · obtain ⟨ys', hys', hperm⟩ : Matched (Alike true) xs ys := hxy.together
      refine .trans (rearranged_elements ((forall₂_mem hys').imp ?_)) (.permuted hperm)
      rintro x y ⟨hx, hy, hxy⟩
      exact ih x hx (hb.elements y (hperm.mem_iff.mp hy)) hxy
  | @map ms hkeys hms ih =>
    obtain ⟨ns, rfl, hmn⟩ := ((alike_map ms hb).1).mp h
    obtain ⟨hkeysn, hvaluesn⟩ := hb.members
    obtain ⟨ns', hns', hperm⟩ := (membersAlike_iff hkeys hkeysn).mp hmn
    refine .trans (rearranged_members ((forall₂_mem hns').imp ?_)) (.unordered hperm)
    rintro m n ⟨hm, hn, hkey, hvalue⟩
    exact ⟨hkey, ih m hm (hvaluesn n (hperm.mem_iff.mp hn)) hvalue⟩

theorem jsonValue_slice {xs : List GoValue} :
    JsonValue (.slice xs) ↔ ∀ x ∈ xs, JsonValue x := ⟨JsonValue.elements, .slice⟩

theorem jsonValue_map {ms : List (String × GoValue)} :
    JsonValue (.map ms) ↔ (ms.map Prod.fst).Nodup ∧ ∀ m ∈ ms, JsonValue m.2 :=
  ⟨JsonValue.members, fun h => .map h.1 h.2⟩

theorem alike_of_matched {xs ys : List GoValue} (hx : JsonValue (.slice xs))
    (hy : JsonValue (.slice ys)) (h : Matched (Alike true) xs ys) :
    Alike true (.slice xs) (.slice ys) := by
  have hlaws : ∀ x ∈ xs, Laws true x := fun x hmem => alike_laws (hx.elements x hmem)
  have helements : ElementsAlike true xs ys :=
    (elementsAlike_iff hx.elements hy.elements hlaws).mpr h
  exact ((alike_slice xs hy).1).mpr (.inr ⟨ys, rfl, helements⟩)

theorem alike_of_matched_members {ms ns : List (String × GoValue)} (hm : JsonValue (.map ms))
    (hn : JsonValue (.map ns)) (h : Matched (MemberAlike true) ms ns) :
    Alike true (.map ms) (.map ns) := by
  have hmembers : MembersAlike true ms ns := (membersAlike_iff hm.members.1 hn.members.1).mpr h
  exact ((alike_map ms hn).1).mpr ⟨ns, rfl, hmembers⟩

theorem forall₂_self {α : Type*} {P : α → α → Prop} {as : List α} (h : ∀ a ∈ as, P a a) :
    List.Forall₂ P as as := List.forall₂_same.mpr h

/-- Rearrangements of a decoded value are decoded values, and alike. -/
theorem alike_of_rearranged {a b : GoValue} (h : Rearranged a b) :
    (JsonValue a ↔ JsonValue b) ∧ (JsonValue a → Alike true a b) := by
  induction h with
  | refl v => exact ⟨Iff.rfl, fun hv => (alike_laws hv).refl⟩
  | symm h ih =>
    refine ⟨ih.1.symm, fun hw => ?_⟩
    have hv := ih.1.mpr hw
    exact ((alike_laws hv).symm _ hw).mp (ih.2 hv)
  | trans h h' ih ih' =>
    refine ⟨ih.1.trans ih'.1, fun hv => ?_⟩
    have hw := ih.1.mp hv
    exact (alike_laws hv).trans _ _ hw (ih'.1.mp hw) (ih.2 hv) (ih'.2 hw)
  | @number x y h =>
    have hiff : JsonValue (.float x) ↔ JsonValue (.float y) := by
      constructor
      · rintro ⟨⟩
        exact .float (isSome_of_eq h ‹_›)
      · rintro ⟨⟩
        exact .float (isSome_of_eq (eq_symm h) ‹_›)
    refine ⟨hiff, fun hx => ?_⟩
    have hy := hiff.mp hx
    cases hx with
    | float hx =>
      exact ((alike_float hx hy).1).mpr ⟨y, rfl, (eq_iff_toRat hx (isSome_of_eq h hx)).mp h⟩
  | nil_empty =>
    have hempty : JsonValue (.slice []) := .slice fun x h => absurd h List.not_mem_nil
    exact ⟨iff_of_true .nil hempty, fun _ => ((alike_nil hempty).1).mpr (.inr rfl)⟩
  | @permuted xs ys h =>
    have hiff : JsonValue (.slice xs) ↔ JsonValue (.slice ys) := by
      rw [jsonValue_slice, jsonValue_slice]
      exact forall_congr' fun x => by rw [h.mem_iff]
    refine ⟨hiff, fun hx => alike_of_matched hx (hiff.mp hx) ⟨xs, ?_, h⟩⟩
    exact forall₂_self fun x hmem => (alike_laws (hx.elements x hmem)).refl
  | @element pre post x y h ih =>
    have hiff : JsonValue (.slice (pre ++ x :: post)) ↔ JsonValue (.slice (pre ++ y :: post)) := by
      rw [jsonValue_slice, jsonValue_slice]
      simp only [List.forall_mem_append, List.forall_mem_cons, ih.1]
    refine ⟨hiff, fun hx => alike_of_matched hx (hiff.mp hx) ⟨_, ?_, .refl _⟩⟩
    obtain ⟨hpre, hx, hpost⟩ : (∀ x ∈ pre, JsonValue x) ∧ JsonValue x ∧ ∀ x ∈ post, JsonValue x := by
      have helements := hx.elements
      simpa only [List.forall_mem_append, List.forall_mem_cons] using helements
    exact List.rel_append (forall₂_self fun x hmem => (alike_laws (hpre x hmem)).refl)
      (.cons (ih.2 hx) (forall₂_self fun x hmem => (alike_laws (hpost x hmem)).refl))
  | @unordered ms ns h =>
    have hiff : JsonValue (.map ms) ↔ JsonValue (.map ns) := by
      rw [jsonValue_map, jsonValue_map, (h.map Prod.fst).nodup_iff]
      refine and_congr_right fun _ => forall_congr' fun m => ?_
      rw [h.mem_iff]
    refine ⟨hiff, fun hm => alike_of_matched_members hm (hiff.mp hm) ⟨ms, ?_, h⟩⟩
    exact forall₂_self fun m hmem => ⟨rfl, (alike_laws (hm.members.2 m hmem)).refl⟩
  | @member pre post k v w h ih =>
    have hiff : JsonValue (.map (pre ++ (k, v) :: post)) ↔
        JsonValue (.map (pre ++ (k, w) :: post)) := by
      rw [jsonValue_map, jsonValue_map]
      simp only [List.map_append, List.map_cons, List.forall_mem_append, List.forall_mem_cons, ih.1]
    refine ⟨hiff, fun hm => alike_of_matched_members hm (hiff.mp hm) ⟨_, ?_, .refl _⟩⟩
    obtain ⟨hpre, hv, hpost⟩ : (∀ m ∈ pre, JsonValue m.2) ∧ JsonValue v ∧
        ∀ m ∈ post, JsonValue m.2 := by
      have hmembers := hm.members.2
      simpa only [List.forall_mem_append, List.forall_mem_cons] using hmembers
    exact List.rel_append (forall₂_self fun m hmem => ⟨rfl, (alike_laws (hpre m hmem)).refl⟩)
      (.cons ⟨rfl, ih.2 hv⟩ (forall₂_self fun m hmem => ⟨rfl, (alike_laws (hpost m hmem)).refl⟩))

theorem compare_zero {cfg : CompareConfig} (hcfg : cfg.floatTolerance = .zero) (a b : GoValue) :
    compare a b cfg = true ↔ Alike cfg.orderInsensitive a b := by
  unfold compare Alike
  rw [hcfg]
  simp only [ite_self]

/-- **At tolerance zero `Compare` is an equivalence** on decoded JSON, and where the order
does not count, two values are equal exactly when they are rearrangements of each other. -/
theorem compare_exact (cfg : CompareConfig) (hcfg : cfg.floatTolerance = .zero) :
    (∀ a, Decoded a → compare a a cfg = true) ∧
      (∀ a b, Decoded a → Decoded b → compare a b cfg = compare b a cfg) ∧
      (∀ a b c, Decoded a → Decoded b → Decoded c → compare a b cfg = true →
        compare b c cfg = true → compare a c cfg = true) ∧
      (cfg.orderInsensitive = true → ∀ a b, Decoded a → Decoded b →
        (compare a b cfg = true ↔ Rearranged a b)) := by
  refine ⟨fun a ha => ?_, fun a b ha hb => ?_, fun a b c ha hb hc hab hbc => ?_,
    fun hoi a b ha hb => ?_⟩
  · exact (compare_zero hcfg a a).mpr (alike_laws ha.jsonValue).refl
  · rw [Bool.eq_iff_iff, compare_zero hcfg, compare_zero hcfg]
    exact (alike_laws ha.jsonValue).symm b hb.jsonValue
  · rw [compare_zero hcfg] at hab hbc ⊢
    exact (alike_laws ha.jsonValue).trans b c hb.jsonValue hc.jsonValue hab hbc
  · rw [compare_zero hcfg, hoi]
    exact ⟨rearranged_of_alike ha.jsonValue hb.jsonValue,
      fun h => (alike_of_rearranged h).2 ha.jsonValue⟩

/-- Two empty values in another order. -/
theorem compare_exact_empty :
    Rearranged (.slice [.nil, .slice [], .bool true]) (.slice [.bool true, .nil, .nil]) := by
  have hleft : Decoded (.slice [.nil, .slice [], .bool true]) :=
    ⟨.arr [.null, .arr [], .bool true], rfl⟩
  have hright : Decoded (.slice [.bool true, .nil, .nil]) := ⟨.arr [.bool true, .null, .null], rfl⟩
  refine ((compare_exact { orderInsensitive := true } rfl).2.2.2 rfl _ _ hleft hright).mp ?_
  decide +kernel

end Judge
