/-
# Comparison over exact numbers

The comparator of the judge (`pkg/comparator/comparator.go`) on values whose numbers are of
any type, with the comparison of two numbers as a parameter.  Over binary64 it is the
comparator of the judge on decoded JSON (`compareValue_embed`); over the rational numbers
nothing is rounded.

In order-insensitive mode every expected element takes the first unused actual element that
it matches, which with a tolerance need not lead to a matching of all of them.

* `compare_unordered_iff` : for which arrays the comparison finds the matching there is.
-/
import JudgePlatform.Judge.Comparator
import JudgePlatform.Library.Matching

namespace Judge

open Matching

/-- What JSON decodes to, over numbers of some type. -/
inductive Value (N : Type) where
  | nil
  | bool (b : Bool)
  | num (n : N)
  | string (s : String)
  | slice (xs : List (Value N))
  /-- the keys being distinct -/
  | map (members : List (String × Value N))

namespace Value

variable {N : Type}

/-- Induction on a value. -/
theorem induct {motive : Value N → Prop} (nil : motive nil) (bool : ∀ b, motive (bool b))
    (num : ∀ n, motive (num n)) (string : ∀ s, motive (string s))
    (slice : ∀ xs : List (Value N), (∀ x ∈ xs, motive x) → motive (slice xs))
    (map : ∀ ms : List (String × Value N), (∀ m ∈ ms, motive m.2) → motive (map ms))
    (v : Value N) : motive v := by
  refine @Value.rec N motive (fun xs => ∀ x ∈ xs, motive x) (fun ms => ∀ m ∈ ms, motive m.2)
    (fun m => motive m.2) nil bool num string slice map ?_ ?_ ?_ ?_ ?_ v
  · exact fun x h => absurd h List.not_mem_nil
  · exact fun x xs hx hxs => List.forall_mem_cons.mpr ⟨hx, hxs⟩
  · exact fun m h => absurd h List.not_mem_nil
  · exact fun m ms hm hms => List.forall_mem_cons.mpr ⟨hm, hms⟩
  · exact fun k v hv => hv

/-- `m[k]`. -/
def getKey (ms : List (String × Value N)) (k : String) : Option (Value N) :=
  (ms.find? fun m => m.1 = k).map Prod.snd

/-- Whether a value is nil or an empty slice. -/
def nilOrEmpty : Value N → Bool
  | nil => true
  | slice [] => true
  | _ => false

mutual

/-- `compareValue`, `close` being `compareNumbers` at a tolerance. -/
def compareValue (close : N → N → Bool) (orderInsensitive : Bool) : Value N → Value N → Bool
  | nil, actual => nilOrEmpty actual
  | expected, nil => nilOrEmpty expected
  | num en, num an => close en an
  | map em, map am => em.length = am.length && compareMembers close orderInsensitive em am
  | slice es, slice as =>
    es.length = as.length &&
      (if orderInsensitive then compareSlicesUnordered close orderInsensitive es as
      else compareSlices close orderInsensitive es as)
  | bool b, bool c => b = c
  | string s, string t => s = t
  | _, _ => false

/-- The loop over the keys of the expected map. -/
def compareMembers (close : N → N → Bool) (orderInsensitive : Bool) :
    List (String × Value N) → List (String × Value N) → Bool
  | [], _ => true
  | (k, ev) :: em, am =>
    match getKey am k with
    | none => false
    | some av =>
      compareValue close orderInsensitive ev av && compareMembers close orderInsensitive em am

/-- The loop over two slices of one length. -/
def compareSlices (close : N → N → Bool) (orderInsensitive : Bool) :
    List (Value N) → List (Value N) → Bool
  | [], _ => true
  | _, [] => true
  | ev :: es, av :: as =>
    compareValue close orderInsensitive ev av && compareSlices close orderInsensitive es as

/-- Every expected value takes the first unused actual value that it matches; `actual`
holds the unused ones. -/
def compareSlicesUnordered (close : N → N → Bool) (orderInsensitive : Bool) :
    List (Value N) → List (Value N) → Bool
  | [], _ => true
  | ev :: es, actual =>
    match actual.findIdx? fun av => compareValue close orderInsensitive ev av with
    | none => false
    | some i => compareSlicesUnordered close orderInsensitive es (actual.eraseIdx i)

end

/-- The loop is first fit under the comparison of the elements. -/
theorem compareSlicesUnordered_eq (close : N → N → Bool) (oi : Bool) (es as : List (Value N)) :
    compareSlicesUnordered close oi es as = firstFit (compareValue close oi) es as := by
  induction es generalizing as with
  | nil => rw [compareSlicesUnordered, firstFit]
  | cons ev es ih =>
    rw [compareSlicesUnordered, firstFit]
    cases as.findIdx? fun av => compareValue close oi ev av with
    | none => rfl
    | some i => exact ih _

theorem compareValue_slice (close : N → N → Bool) (es as : List (Value N)) :
    compareValue close true (slice es) (slice as) = true ↔
      es.length = as.length ∧ firstFit (compareValue close true) es as = true := by
  rw [compareValue, Bool.and_eq_true, decide_eq_true_eq, if_pos rfl, compareSlicesUnordered_eq]

/-! ## The comparator of the judge -/

mutual

/-- What a value is in Go. -/
def embed : Value Binary64 → GoValue
  | nil => .nil
  | bool b => .bool b
  | num x => .float x
  | string s => .string s
  | slice xs => .slice (embedElements xs)
  | map ms => .map (embedMembers ms)

def embedElements : List (Value Binary64) → List GoValue
  | [] => []
  | x :: xs => embed x :: embedElements xs

def embedMembers : List (String × Value Binary64) → List (String × GoValue)
  | [] => []
  | (k, v) :: ms => (k, embed v) :: embedMembers ms

end

theorem embedElements_eq (xs : List (Value Binary64)) : embedElements xs = xs.map embed := by
  induction xs with
  | nil => rfl
  | cons x xs ih => rw [embedElements, ih, List.map_cons]

theorem length_embedMembers (ms : List (String × Value Binary64)) :
    (embedMembers ms).length = ms.length := by
  induction ms with
  | nil => rfl
  | cons m ms ih => rw [embedMembers, List.length_cons, ih, List.length_cons]

theorem getKey_embedMembers (ms : List (String × Value Binary64)) (k : String) :
    GoValue.getKey (embedMembers ms) k = (getKey ms k).map embed := by
  unfold GoValue.getKey getKey
  induction ms with
  | nil => rfl
  | cons m ms ih =>
    obtain ⟨l, v⟩ := m
    rw [embedMembers]
    by_cases h : l = k
    · simp [h]
    · simp only [List.find?_cons, h, decide_false]
      exact ih

theorem nilOrEmpty_embed (v : Value Binary64) : Judge.nilOrEmpty (embed v) = nilOrEmpty v := by
  cases v with
  | slice xs =>
    cases xs with
    | nil => rfl
    | cons x xs => rfl
  | _ => rfl

variable (tolerance : Binary64) (oi : Bool)

/-- The comparison of two numbers at a tolerance. -/
def closeTo (en an : Binary64) : Bool := compareNumbers en an tolerance

theorem compareSlices_embed {es : List (Value Binary64)}
    (ih : ∀ v ∈ es, ∀ w, Judge.compareValue tolerance oi (embed v) (embed w) =
      compareValue (closeTo tolerance) oi v w) (as : List (Value Binary64)) :
    Judge.compareSlices tolerance oi (es.map embed) (as.map embed) =
      compareSlices (closeTo tolerance) oi es as := by
  induction es generalizing as with
  | nil => rw [List.map_nil, Judge.compareSlices, compareSlices]
  | cons ev es ihes =>
    obtain ⟨hev, hes⟩ := List.forall_mem_cons.mp ih
    cases as with
    | nil => simp [Judge.compareSlices, compareSlices]
    | cons av as =>
      rw [List.map_cons, List.map_cons, Judge.compareSlices, compareSlices, hev, ihes hes]

theorem compareSlicesUnordered_embed {es : List (Value Binary64)}
    (ih : ∀ v ∈ es, ∀ w, Judge.compareValue tolerance oi (embed v) (embed w) =
      compareValue (closeTo tolerance) oi v w) (as : List (Value Binary64)) :
    Judge.compareSlicesUnordered tolerance oi (es.map embed) (as.map embed) =
      compareSlicesUnordered (closeTo tolerance) oi es as := by
  induction es generalizing as with
  | nil => rw [List.map_nil, Judge.compareSlicesUnordered, compareSlicesUnordered]
  | cons ev es ihes =>
    obtain ⟨hev, hes⟩ := List.forall_mem_cons.mp ih
    rw [List.map_cons, Judge.compareSlicesUnordered, compareSlicesUnordered, List.findIdx?_map]
    have hsame : (fun av => Judge.compareValue tolerance oi ev.embed av) ∘ embed =
        fun av => compareValue (closeTo tolerance) oi ev av := funext hev
    rw [hsame]
    cases as.findIdx? fun av => compareValue (closeTo tolerance) oi ev av with
    | none => rfl
    | some i =>
      simp only
      rw [← ihes hes, List.eraseIdx_map]

theorem compareMembers_embed {em : List (String × Value Binary64)}
    (ih : ∀ m ∈ em, ∀ w, Judge.compareValue tolerance oi (embed m.2) (embed w) =
      compareValue (closeTo tolerance) oi m.2 w) (am : List (String × Value Binary64)) :
    Judge.compareMembers tolerance oi (embedMembers em) (embedMembers am) =
      compareMembers (closeTo tolerance) oi em am := by
  induction em with
  | nil => rw [embedMembers, Judge.compareMembers, compareMembers]
  | cons m em ihem =>
    obtain ⟨k, ev⟩ := m
    obtain ⟨hev, hem⟩ := List.forall_mem_cons.mp ih
    rw [embedMembers, Judge.compareMembers, compareMembers, getKey_embedMembers]
    cases getKey am k with
    | none => rfl
    | some av =>
      simp only [Option.map_some]
      rw [hev, ihem hem]

/-- **On decoded JSON the comparator of the judge** is the one over binary64. -/
theorem compareValue_embed (v w : Value Binary64) :
    Judge.compareValue tolerance oi (embed v) (embed w) =
      compareValue (closeTo tolerance) oi v w := by
  induction v using Value.induct generalizing w with
  | nil => rw [embed, Judge.compareValue, compareValue, nilOrEmpty_embed]
  | slice es ih =>
    cases w with
    | slice as =>
      rw [embed, embed, Judge.compareValue.eq_def, compareValue, embedElements_eq,
        embedElements_eq]
      simp only [toSlice]
      rw [List.length_map, List.length_map, compareSlices_embed tolerance oi ih,
        compareSlicesUnordered_embed tolerance oi ih]
    | nil =>
      have hempty := nilOrEmpty_embed (slice es)
      rw [embed] at hempty
      simp [embed, Judge.compareValue, compareValue, hempty]
    | _ => simp [embed, Judge.compareValue, compareValue, toSlice]
  | map em ih =>
    cases w with
    | map am =>
      rw [embed, embed, Judge.compareValue.eq_def, compareValue]
      simp only [toStringMap]
      rw [length_embedMembers, length_embedMembers, compareMembers_embed tolerance oi ih]
    | nil =>
      simp [embed, Judge.compareValue, compareValue, Judge.nilOrEmpty, nilOrEmpty, toSlice]
    | _ => simp [embed, Judge.compareValue, compareValue, toStringMap]
  | num x =>
    cases w with
    | num y => simp [embed, Judge.compareValue, compareValue, asFloat64, closeTo]
    | nil =>
      simp [embed, Judge.compareValue, compareValue, Judge.nilOrEmpty, nilOrEmpty, toSlice]
    | _ => simp [embed, Judge.compareValue, compareValue, asFloat64]
  | bool b =>
    cases w with
    | nil =>
      simp [embed, Judge.compareValue, compareValue, Judge.nilOrEmpty, nilOrEmpty, toSlice]
    | _ => simp [embed, Judge.compareValue, compareValue, GoValue.deepEqual]
  | string t =>
    cases w with
    | nil =>
      simp [embed, Judge.compareValue, compareValue, Judge.nilOrEmpty, nilOrEmpty, toSlice]
    | _ => simp [embed, Judge.compareValue, compareValue, GoValue.deepEqual]

end Value

/-! ## Exact numbers -/

/-- `compareNumbers`, without rounding. -/
def closeExactly (tolerance expected actual : ℚ) : Bool :=
  if 0 < tolerance then |expected - actual| ≤ tolerance else expected = actual

/-- `Compare` over exact numbers. -/
def compareExactly (floatTolerance : ℚ) (orderInsensitive : Bool) (expected actual : Value ℚ) :
    Bool :=
  let tolerance := if floatTolerance < 0 then 0 else floatTolerance
  expected.compareValue (closeExactly tolerance) orderInsensitive actual

open Value in
/-- **Which arrays are compared as they should be** when the order of elements does not
count: those where a bijection under which every expected element accepts its partner can be
chosen so that no expected element passes over an actual element it accepts for the sake of
a later expected element, if there is such a bijection at all. -/
theorem compare_unordered_iff (tolerance : ℚ) (expected actual : List (Value ℚ)) :
    (compareExactly tolerance true (.slice expected) (.slice actual) = true ↔
        expected.length = actual.length ∧
          ∃ σ : Fin expected.length ≃ Fin actual.length,
            ∀ i, compareExactly tolerance true (expected.get i) (actual.get (σ i)) = true) ↔
      ((∃ σ : Fin expected.length ≃ Fin actual.length,
          ∀ i, compareExactly tolerance true (expected.get i) (actual.get (σ i)) = true) →
        ∃ σ : Fin expected.length ≃ Fin actual.length,
          (∀ i, compareExactly tolerance true (expected.get i) (actual.get (σ i)) = true) ∧
            ∀ i, ∀ j < σ i, compareExactly tolerance true (expected.get i) (actual.get j) = true →
              σ.symm j < i) := by
  have hslice := compareValue_slice
    (closeExactly (if tolerance < 0 then 0 else tolerance)) expected actual
  unfold compareExactly
  simp only
  rw [hslice]
  constructor
  · rintro h ⟨σ, hσ⟩
    have hlength : expected.length = actual.length := by
      simpa using Fintype.card_congr σ
    exact (firstFit_iff_equiv hlength).mp (h.mpr ⟨hlength, σ, hσ⟩).2
  · intro h
    constructor
    · rintro ⟨hlength, hfits⟩
      obtain ⟨σ, hσ, -⟩ := (firstFit_iff_equiv hlength).mp hfits
      exact ⟨hlength, σ, hσ⟩
    · rintro ⟨hlength, hσ⟩
      exact ⟨hlength, (firstFit_iff_equiv hlength).mpr (h hσ)⟩

/-- With tolerance 1, `0` takes the `1` that the expected `1` would need. -/
theorem takes_first_not_complete :
    ¬(compareExactly 1 true (.slice [.num 0, .num 1]) (.slice [.num 1, .num (-1)]) = true ↔
        [Value.num (0 : ℚ), .num 1].length = [Value.num (1 : ℚ), .num (-1)].length ∧
          ∃ σ : Fin [Value.num (0 : ℚ), .num 1].length ≃ Fin [Value.num (1 : ℚ), .num (-1)].length,
            ∀ i, compareExactly 1 true ([Value.num (0 : ℚ), .num 1].get i)
              ([Value.num (1 : ℚ), .num (-1)].get (σ i)) = true) := by
  intro h
  have htrue := h.mpr ⟨rfl, Equiv.swap (0 : Fin 2) 1, by decide +kernel⟩
  revert htrue
  decide +kernel

end Judge
