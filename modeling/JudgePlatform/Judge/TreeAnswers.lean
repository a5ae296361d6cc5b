/-
# Tree answers

A test of a problem that returns a `tree<number>` stores its expected tree as an array in
level order.  `validateData` lets every array of numbers and nulls through, and the
comparator compares it, entry by entry, with what `SerializeTree` returns: an array
without nulls at its end and without entries that have no parent.

* `compare_entries` : arrays are compared by the numbers of their entries.
* `tree_answers_iff` : the arrays for which this is the comparison of the trees.
-/
import JudgePlatform.Judge.Comparator
import JudgePlatform.Judge.DataValidation
import JudgePlatform.Judge.TreeCodec

namespace Judge

open BinaryTree LevelOrder

/-! ## What is validated -/

theorem validateData_number_iff (x : JsValue) :
    validateData (some x) (some "number") = .ok () ↔ ∃ y, x = .num y := by
  have hcapture : Bracketed.capture jsDot
      (Bracketed.trim jsSpace ((some "number").getD "").toList) =
      some ("number".toList, none) := by decide
  rw [validateData.eq_def]
  split
  case h_1 h => exact absurd (hcapture.symm.trans h) (by simp)
  case h_2 kind inner h =>
    obtain ⟨rfl, rfl⟩ := Prod.mk.inj (Option.some.inj (hcapture.symm.trans h))
    simp only [String.ofList_toList]
    cases x with
    | num y => simp
    | _ => simp

/-- The loop accepts the arrays all items of which it accepts. -/
theorem validateItems_iff (check : JsValue → Except String Unit) (text : ℕ → String → String)
    (i : ℕ) (xs : List JsValue) :
    validateItems check text i xs = .ok () ↔ ∀ x ∈ xs, check x = .ok () := by
  induction xs generalizing i with
  | nil => simp [validateItems]
  | cons x xs ih =>
    rw [validateItems, List.forall_mem_cons, ← ih (i + 1)]
    cases check x with
    | error e => simp
    | ok u => simp

/-- What is let through as the array of a tree of numbers. -/
theorem validateData_tree_iff (xs : List JsValue) :
    validateData (some (.arr xs)) (some "tree<number>") = .ok () ↔
      ∀ x ∈ xs, x = .null ∨ ∃ y, x = .num y := by
  have hcapture : Bracketed.capture jsDot
      (Bracketed.trim jsSpace ((some "tree<number>").getD "").toList) =
      some ("tree".toList, some "number".toList) := by decide
  have hitem : ∀ x, orNull (fun x => validateData (some x) (some "number")) x = .ok () ↔
      x = .null ∨ ∃ y, x = .num y := by
    intro x
    cases x with
    | null => simp [orNull]
    | _ =>
      rw [orNull, validateData_number_iff]
      · simp
      · simp
  rw [validateData.eq_def]
  split
  case h_1 h => exact absurd (hcapture.symm.trans h) (by simp)
  case h_2 kind inner h =>
    obtain ⟨rfl, rfl⟩ := Prod.mk.inj (Option.some.inj (hcapture.symm.trans h))
    simp only [String.ofList_toList]
    rw [validateItems_iff]
    exact forall_congr' fun x => imp_congr_right fun _ => hitem x

/-! ## Numbers in arrays and trees -/

/-- An entry of an array, which may be nil. -/
def ofInterface : GoValue → Option GoValue
  | .nil => none
  | v => some v

/-- The entry of an array for a value of a tree. -/
def toInterface (v : Option GoValue) : GoValue := v.getD .nil

def IsNumber (v : Option GoValue) : Prop := ∃ w x, v = some w ∧ asFloat64 w = some x

/-- A number that is equal to itself. -/
def IsProper (v : Option GoValue) : Prop :=
  ∃ w x, v = some w ∧ asFloat64 w = some x ∧ x ≠ .nan

/-- Numbers of the same value, whatever their types. -/
def SameNumber (v w : Option GoValue) : Prop :=
  ∃ x y, v.bind asFloat64 = some x ∧ w.bind asFloat64 = some y ∧ x.eq y = true

/-- Trees of one shape with the same numbers. -/
def SameTree : BinaryTree (Option GoValue) → BinaryTree (Option GoValue) → Prop
  | nil, nil => True
  | node v l r, node w l' r' => SameNumber v w ∧ SameTree l l' ∧ SameTree r r'
  | _, _ => False

/-- What a number is compared by. -/
def numberOf (v : GoValue) : Option Binary64 := (asFloat64 v).map Binary64.canonical

theorem IsProper.isNumber {v : Option GoValue} (h : IsProper v) : IsNumber v := by
  obtain ⟨w, x, hw, hx, -⟩ := h
  exact ⟨w, x, hw, hx⟩

theorem IsNumber.ne_none {v : Option GoValue} (h : IsNumber v) : v ≠ none := by
  obtain ⟨w, x, rfl, -⟩ := h
  simp

theorem nonNil_of_all {t : BinaryTree (Option GoValue)} (h : All IsNumber t) : NonNil t := by
  induction t with
  | nil => trivial
  | node v l r ihl ihr => exact ⟨h.1.ne_none, ihl h.2.1, ihr h.2.2⟩

theorem sameNumber_iff {v w : Option GoValue} (hv : IsNumber v) (hw : IsProper w) :
    SameNumber v w ↔ v.map numberOf = w.map numberOf := by
  obtain ⟨v, x, rfl, hx⟩ := hv
  obtain ⟨w, y, rfl, hy, hnan⟩ := hw
  unfold SameNumber numberOf
  simp only [Option.bind_some, Option.map_some, hx, hy, Option.some.injEq]
  constructor
  · rintro ⟨_, _, rfl, rfl, heq⟩
    exact (Binary64.eq_iff.mp heq).2
  · intro h
    refine ⟨x, y, rfl, rfl, Binary64.eq_iff.mpr ⟨?_, h⟩⟩
    rintro rfl
    exact hnan (by cases y with | nan => rfl | _ => cases h)

/-- Trees are the same when their values are compared by the same numbers. -/
theorem sameTree_iff {t u : BinaryTree (Option GoValue)} (ht : All IsNumber t)
    (hu : All IsProper u) :
    SameTree t u ↔ t.map (Option.map numberOf) = u.map (Option.map numberOf) := by
  induction t generalizing u with
  | nil =>
    cases u with
    | nil => simp [SameTree]
    | node w l' r' => simp [SameTree, map]
  | node v l r ihl ihr =>
    cases u with
    | nil => simp [SameTree, map]
    | node w l' r' =>
      rw [SameTree, sameNumber_iff ht.1 hu.1, ihl ht.2.1 hu.2.1, ihr ht.2.2 hu.2.2, map, map,
        BinaryTree.node.injEq]

/-! ## Comparing arrays -/

/-- The same for two entries, one of which may be nil. -/
theorem compareValue_entry {e a : Option GoValue} (he : e = none ∨ IsProper e)
    (ha : a = none ∨ IsNumber a) :
    compareValue .zero false (toInterface e) (toInterface a) = true ↔
      e.map numberOf = a.map numberOf := by
  have hzero : Binary64.zero.lt .zero = false := by decide +kernel
  have hnumber : ∀ {v : GoValue} {x : Binary64}, asFloat64 v = some x →
      (∃ y, v = .float y) ∨ ∃ k n, v = .int k n := by
    intro v x hx
    cases v with
    | float y => exact Or.inl ⟨y, rfl⟩
    | int k n => exact Or.inr ⟨k, n, rfl⟩
    | _ => cases hx
  rcases he with rfl | ⟨v, x, rfl, hx, hnan⟩
  · rcases ha with rfl | ⟨w, y, rfl, hy⟩
    · simp [toInterface, compareValue, nilOrEmpty]
    · rcases hnumber hy with ⟨y, rfl⟩ | ⟨k, n, rfl⟩
      · simp [toInterface, compareValue, nilOrEmpty, toSlice]
      · simp [toInterface, compareValue, nilOrEmpty, toSlice]
  · rcases ha with rfl | ⟨w, y, rfl, hy⟩
    · rcases hnumber hx with ⟨x, rfl⟩ | ⟨k, n, rfl⟩
      · simp [toInterface, compareValue, nilOrEmpty, toSlice]
      · simp [toInterface, compareValue, nilOrEmpty, toSlice]
    · have hcompare : compareValue .zero false v w = x.eq y := by
        rcases hnumber hx with ⟨x', rfl⟩ | ⟨k, n, rfl⟩ <;>
          rcases hnumber hy with ⟨y', rfl⟩ | ⟨k', n', rfl⟩ <;>
          · simp only [asFloat64, Option.some.injEq] at hx hy
            subst hx hy
            simp [compareValue, asFloat64, compareNumbers, hzero]
      unfold toInterface numberOf
      simp only [Option.getD_some, Option.map_some, hx, hy, hcompare, Binary64.eq_iff,
        Option.some.injEq]
      exact and_iff_right hnan

/-- **Arrays are compared** by the numbers of their entries. -/
theorem compare_entries {es as : List (Option GoValue)} (hes : ∀ e ∈ es, e = none ∨ IsProper e)
    (has : ∀ a ∈ as, a = none ∨ IsNumber a) :
    compare (.slice (es.map toInterface)) (.slice (as.map toInterface)) {} = true ↔
      es.map (Option.map numberOf) = as.map (Option.map numberOf) := by
  have hslices : es.length = as.length →
      (compareSlices .zero false (es.map toInterface) (as.map toInterface) = true ↔
        es.map (Option.map numberOf) = as.map (Option.map numberOf)) := by
    induction es generalizing as with
    | nil =>
      intro hlength
      rw [List.eq_nil_of_length_eq_zero hlength.symm]
      simp [compareSlices]
    | cons e es ih =>
      intro hlength
      cases as with
      | nil => cases hlength
      | cons a as =>
        obtain ⟨he, hes⟩ := List.forall_mem_cons.mp hes
        obtain ⟨ha, has⟩ := List.forall_mem_cons.mp has
        rw [List.map_cons, List.map_cons, compareSlices, Bool.and_eq_true,
          compareValue_entry he ha, ih hes has (Nat.succ.inj hlength), List.map_cons,
          List.map_cons, List.cons.injEq]
  have htolerance : (if Binary64.zero.lt .zero then Binary64.zero else .zero) = .zero :=
    ite_self _
  unfold compare
  simp only [htolerance]
  rw [compareValue.eq_def]
  simp only [toSlice, Bool.and_eq_true, decide_eq_true_eq, Bool.false_eq_true, if_false,
    List.length_map]
  constructor
  · rintro ⟨hlength, h⟩
    exact (hslices hlength).mp h
  · intro h
    have hlength : es.length = as.length := by
      simpa using congrArg List.length h
    exact ⟨hlength, (hslices hlength).mpr h⟩

/-! ## The answers that are accepted -/

/-- The values of a tree are entries of its array. -/
theorem all_buildTree {P : Option GoValue → Prop} {es : List (Option GoValue)}
    (h : ∀ e ∈ es, e = none ∨ P e) : All P (buildTree es) := by
  cases es with
  | nil => trivial
  | cons e es =>
    cases e with
    | none => trivial
    | some v =>
      obtain ⟨t, ht, hbuild⟩ := buildTree_cons v es
      obtain ⟨hv, hes⟩ := List.forall_mem_cons.mp h
      have hgrown : ∀ u ∈ grow [v] es, All (fun v => P (some v)) u := by
        refine all_grow (fun w hw => ?_) fun w hw => ?_
        · rw [List.mem_singleton.mp hw]
          exact hv.resolve_left (by simp)
        · exact (hes _ hw).resolve_left (by simp)
      rw [hbuild, all_map_iff]
      exact hgrown t (by rw [ht]; exact List.mem_singleton_self t)

/-- The comparison with a serialized tree is one of the trees on canonical arrays, and on
no others. -/
theorem compare_serializeTree_iff {es : List (Option GoValue)}
    (hes : ∀ e ∈ es, e = none ∨ IsProper e) :
    (∀ t, All IsNumber t →
        (compare (.slice (es.map toInterface)) (.slice ((serializeTree t).map toInterface)) {} =
          true ↔ SameTree t (buildTree es))) ↔ Canonical es := by
  have hbuilt : All IsProper (buildTree es) := all_buildTree hes
  have hnumbers : All IsNumber (buildTree es) := hbuilt.imp fun _ h => h.isNumber
  have hcompare : ∀ t, All IsNumber t →
      (compare (.slice (es.map toInterface)) (.slice ((serializeTree t).map toInterface)) {} =
        true ↔ es.map (Option.map numberOf) = serializeTree (t.map (Option.map numberOf))) := by
    intro t ht
    rw [compare_entries hes (mem_serializeTree ht), serializeTree_map]
  constructor
  · intro h
    have hself : es.map (Option.map numberOf) =
        serializeTree ((buildTree es).map (Option.map numberOf)) :=
      (hcompare _ hnumbers).mp ((h _ hnumbers).mpr ((sameTree_iff hnumbers hbuilt).mpr rfl))
    rw [← canonical_map_iff numberOf, hself, serializeTree_map, canonical_map_iff]
    exact canonical_serializeTree (nonNil_of_all hnumbers)
  · intro hcanonical t ht
    rw [hcompare t ht, sameTree_iff ht hbuilt]
    have hes' : es.map (Option.map numberOf) =
        serializeTree ((buildTree es).map (Option.map numberOf)) := by
      rw [serializeTree_map, tree_codec.2 es hcanonical]
    have hnonNil : ∀ u, All IsNumber u → NonNil (u.map (Option.map numberOf)) := fun u hu =>
      (nonNil_map_iff numberOf u).mpr (nonNil_of_all hu)
    rw [hes']
    constructor
    · intro h
      rw [← tree_codec.1 _ (hnonNil t ht), ← h, tree_codec.1 _ (hnonNil _ hnumbers)]
    · intro h
      rw [h]

/-- What is relied on of how numbers and null are stored with a problem and read back: a
number may come back as an integer of the same value. -/
structure KeepsNumbers (bson : JsValue → GoValue) : Prop where
  null : bson .null = .nil
  num : ∀ x, x ≠ .nan → ∃ y, asFloat64 (bson (.num x)) = some y ∧ y.eq x = true

/-- An item of an array, which may be null. -/
def notNull : JsValue → Option JsValue
  | .null => none
  | x => some x

section

variable {bson : JsValue → GoValue}

/-- What `validateData` lets through is read as numbers and nils. -/
theorem ofInterface_bson (hbson : KeepsNumbers bson) {x : JsValue}
    (h : x = .null ∨ ∃ y, x = .num y ∧ y ≠ .nan) :
    ofInterface (bson x) = (notNull x).map bson ∧ toInterface (ofInterface (bson x)) = bson x ∧
      (ofInterface (bson x) = none ∨ IsProper (ofInterface (bson x))) := by
  rcases h with rfl | ⟨y, rfl, hy⟩
  · rw [hbson.null]
    exact ⟨rfl, rfl, Or.inl rfl⟩
  · obtain ⟨z, hz, heq⟩ := hbson.num y hy
    have hsome : ofInterface (bson (.num y)) = some (bson (.num y)) := by
      cases hv : bson (.num y) with
      | nil =>
        rw [hv] at hz
        cases hz
      | _ => rfl
    rw [hsome]
    exact ⟨rfl, rfl, Or.inr ⟨_, z, rfl, hz, (Binary64.eq_iff.mp heq).1⟩⟩

/-- **Which expected arrays accept the answers they should**: of the arrays that
`validateData` lets through as a `tree<number>`, those that are canonical, and no others.
The comparison is the one of `Compare` at the default configuration. -/
theorem tree_answers_iff (hbson : KeepsNumbers bson) {js : List Json} {xs : List JsValue}
    (hxs : JsValue.ofJson (.arr js) = .arr xs)
    (hvalid : validateData (some (.arr xs)) (some "tree<number>") = .ok ()) :
    (∀ t : BinaryTree (Option GoValue), All IsNumber t →
        (compare (.slice (xs.map bson)) (.slice ((serializeTree t).map toInterface)) {} = true ↔
          SameTree t (buildTree (xs.map fun x => ofInterface (bson x))))) ↔
      Canonical (xs.map notNull) := by
  have hitems : ∀ x ∈ xs, x = .null ∨ ∃ y, x = .num y ∧ y ≠ .nan := by
    intro x hx
    refine ((validateData_tree_iff xs).mp hvalid x hx).imp_right ?_
    rintro ⟨y, rfl⟩
    rw [JsValue.ofJson.eq_def] at hxs
    simp only [JsValue.arr.injEq] at hxs
    rw [JsValue.ofElements_eq] at hxs
    rw [← hxs] at hx
    obtain ⟨j, -, hj⟩ := List.mem_map.mp hx
    exact ⟨y, rfl, JsValue.ne_nan_of_ofJson hj⟩
  have hinterface : (xs.map fun x => ofInterface (bson x)).map toInterface = xs.map bson := by
    rw [List.map_map]
    exact List.map_congr_left fun x hx => (ofInterface_bson hbson (hitems x hx)).2.1
  have hnotNull : (xs.map fun x => ofInterface (bson x)) = (xs.map notNull).map (Option.map bson) := by
    rw [List.map_map]
    exact List.map_congr_left fun x hx => (ofInterface_bson hbson (hitems x hx)).1
  have hproper : ∀ e ∈ xs.map fun x => ofInterface (bson x), e = none ∨ IsProper e := by
    intro e he
    obtain ⟨x, hx, rfl⟩ := List.mem_map.mp he
    exact (ofInterface_bson hbson (hitems x hx)).2.2
  rw [← canonical_map_iff bson, ← hnotNull, ← compare_serializeTree_iff hproper, hinterface]

/-- Small integers are stored as `int32`, other numbers as doubles. -/
def bsonNumber : Binary64 → GoValue
  | .finite q h => if q.den = 1 ∧ |q.num| < 2 ^ 31 then .int .int32 q.num else .float (.finite q h)
  | x => .float x

/-- How arrays of numbers and nulls are stored. -/
def bsonItem : JsValue → GoValue
  | .num x => bsonNumber x
  | _ => .nil

theorem keepsNumbers_bsonItem : KeepsNumbers bsonItem := by
  refine ⟨rfl, fun x hx => ?_⟩
  cases x with
  | finite q h =>
    show ∃ y, asFloat64 (if q.den = 1 ∧ |q.num| < 2 ^ 31 then _ else _) = some y ∧ _
    split_ifs with hint
    · have hq : (q.num : ℚ) = q := Rat.coe_int_num_of_den_eq_one hint.1
      refine ⟨.finite q h, ?_, Binary64.eq_self hx⟩
      show some (Binary64.ofRat (q.num : ℚ)) = _
      rw [hq, Binary64.ofRat_of_representable h]
    · exact ⟨_, rfl, Binary64.eq_self hx⟩
  | _ => exact ⟨_, rfl, Binary64.eq_self hx⟩

/-- The JSON text `0`. -/
theorem ofJson_zero : JsValue.ofJson (.num (JsonNumber.ofInt 0)) = .num .zero := by
  have hzero : JsValue.ofNumber (JsonNumber.ofInt 0) = .zero := by decide +kernel
  rw [JsValue.ofJson.eq_def]
  simp only [hzero]

/-- The array `[0]` accepts the tree of the one node 0, and no other. -/
theorem tree_answers_iff_root :
    Canonical ([JsValue.num .zero].map notNull) ∧
      ∀ t : BinaryTree (Option GoValue), All IsNumber t →
        (compare (.slice ([JsValue.num .zero].map bsonItem))
            (.slice ((serializeTree t).map toInterface)) {} = true ↔
          SameTree t (buildTree ([JsValue.num .zero].map fun x => ofInterface (bsonItem x)))) := by
  have hxs : JsValue.ofJson (.arr [.num (JsonNumber.ofInt 0)]) = .arr [.num .zero] := by
    rw [JsValue.ofJson.eq_def]
    simp only [JsValue.ofElements_eq, List.map_cons, List.map_nil, ofJson_zero]
  have hvalid : validateData (some (.arr [.num .zero])) (some "tree<number>") = .ok () := by
    rw [validateData_tree_iff]
    simp
  have hcanonical : Canonical ([JsValue.num .zero].map notNull) := by
    refine ⟨by simp [notNull], by simp [notNull], fun i hpos hi => ?_⟩
    have : i < 1 := hi
    omega
  exact ⟨hcanonical, (tree_answers_iff keepsNumbers_bsonItem hxs hvalid).mpr hcanonical⟩

/-- The array `[0, null]` builds the tree of the one node 0, and does not accept it. -/
theorem trailing_null_rejected :
    JsValue.ofJson (.arr [.num (JsonNumber.ofInt 0), .null]) = .arr [.num .zero, .null] ∧
      validateData (some (.arr [.num .zero, .null])) (some "tree<number>") = .ok () ∧
      All IsNumber (node (some (.int .int32 0)) nil nil) ∧
      ¬(compare (.slice ([.num .zero, .null].map bsonItem))
          (.slice ((serializeTree (node (some (.int .int32 0)) nil nil)).map toInterface)) {} = true ↔
        SameTree (node (some (.int .int32 0)) nil nil)
          (buildTree ([.num .zero, .null].map fun x => ofInterface (bsonItem x)))) := by
  have hitem : bsonItem (.num .zero) = .int .int32 0 := rfl
  have hserialize : serializeTree (node (some (GoValue.int .int32 0)) nil nil) =
      [some (.int .int32 0)] := by
    simp [serializeTree, serializeLoop, trimNils]
  refine ⟨?_, ?_, ?_, ?_⟩
  · rw [JsValue.ofJson.eq_def]
    simp only [JsValue.ofElements_eq, List.map_cons, List.map_nil, ofJson_zero]
    rfl
  · rw [validateData_tree_iff]
    simp
  · exact ⟨⟨_, _, rfl, rfl⟩, trivial, trivial⟩
  · intro h
    have hsame : SameTree (node (some (.int .int32 0)) nil nil)
        (buildTree ([.num .zero, .null].map fun x => ofInterface (bsonItem x))) := by
      refine ⟨⟨_, _, rfl, rfl, Binary64.eq_self ?_⟩, trivial, trivial⟩
      decide +kernel
    have hcompare := h.mpr hsame
    rw [hserialize] at hcompare
    simp [hitem, compare, compareValue, toSlice] at hcompare

end

end Judge
