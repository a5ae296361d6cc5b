/-
# Trees that the wrappers print

The wrappers of C and of Rust submissions print a tree in level order.  In C the queue is
an array of 10000 pointers, and the nulls at the end stay (`pkg/wrappers/c_wrapper.tpl`); in
Rust the queue grows and they are popped (`pkg/wrappers/rust_wrapper.tpl`).

* `CWrapper.treeToJson_eq` : what the C wrapper prints, and for which trees its queue is
  large enough.
* `tree_outputs_agree_iff` : the two are only equal for the empty tree.
-/
import JudgePlatform.Judge.Comparator
import JudgePlatform.Judge.RustJson
import JudgePlatform.Judge.TreeCodec

namespace Judge

open BinaryTree LevelOrder

/-! ## The C wrapper -/

namespace CWrapper

/-- The pointers that fit in `malloc(10000 * sizeof(struct TreeNode*))`. -/
def queueSize : ℕ := 10000

/-- `json_object_new_int`. -/
def newInt (val : Int32) : Json := .num (JsonNumber.ofInt val.toInt)

/-- The loop of `tree_to_json`; `queue` is the part of the array from `head` to `tail`.
There is no result when a pointer would be written behind the array. -/
def treeLoop : List (BinaryTree Int32) → ℕ → List Json → Option (List Json)
  | [], _, res => some res
  | nil :: queue, tail, res => treeLoop queue tail (res ++ [.null])
  | node val left right :: queue, tail, res =>
    if tail + 1 < queueSize then
      treeLoop (queue ++ [left, right]) (tail + 2) (res ++ [newInt val])
    else none
termination_by queue => weight queue
decreasing_by
  · simp [weight]
  · simp only [weight, List.map_append, List.sum_append, List.map_cons, List.sum_cons,
      List.map_nil, List.sum_nil, numNodes]
    omega

/-- `tree_to_json`; its loop over the nulls at the end breaks before it removes one. -/
def treeToJson : BinaryTree Int32 → Option Json
  | nil => some .null
  | root => (treeLoop [root] 1 []).map .arr

end CWrapper

/-! ## The Rust wrapper -/

namespace RustWrapper

/-- The loop of `tree_to_json` over its queue. -/
def treeLoop : List (BinaryTree Int32) → List (Option Int32) → List (Option Int32)
  | [], result => result
  | node val left right :: queue, result => treeLoop (queue ++ [left, right]) (result ++ [some val])
  | nil :: queue, result => treeLoop queue (result ++ [none])
termination_by queue => weight queue
decreasing_by
  · simp only [weight, List.map_append, List.sum_append, List.map_cons, List.sum_cons,
      List.map_nil, List.sum_nil, numNodes]
    omega
  · simp [weight]

/-- What is printed for an entry. -/
def entryText : Option Int32 → List Char
  | some x => Text.intDigits x.toInt
  | none => "null".toList

/-- `tree_to_json`. -/
def treeToJson : BinaryTree Int32 → List Char
  | nil => "[]".toList
  | root => RustJson.joined ((trimNils (treeLoop [root] [])).map entryText)

end RustWrapper

/-! ## What is printed -/

/-- The JSON value of an entry. -/
def entryJson : Option Int32 → Json
  | some x => CWrapper.newInt x
  | none => .null

/-- The nodes of a queue. -/
def nodes (queue : List (BinaryTree Int32)) : ℕ := (queue.map numNodes).sum

theorem nodes_cons (t : BinaryTree Int32) (queue : List (BinaryTree Int32)) :
    nodes (t :: queue) = t.numNodes + nodes queue := by
  unfold nodes
  rw [List.map_cons, List.sum_cons]

theorem nodes_children (val : Int32) (left right : BinaryTree Int32)
    (queue : List (BinaryTree Int32)) :
    nodes (node val left right :: queue) = nodes (queue ++ [left, right]) + 1 := by
  simp only [nodes, List.map_cons, List.sum_cons, List.map_append, List.sum_append, List.map_nil,
    List.sum_nil, numNodes]
  omega

theorem CWrapper.treeLoop_eq (queue : List (BinaryTree Int32)) {tail : ℕ}
    (htail : tail ≤ queueSize) (res : List Json) :
    treeLoop queue tail res =
      if tail + 2 * nodes queue ≤ queueSize then some (res ++ (entries queue).map entryJson)
      else none := by
  induction queue, tail, res using treeLoop.induct with
  | case1 tail res =>
    rw [treeLoop, entries_nil, List.map_nil, List.append_nil, if_pos (by simpa [nodes] using htail)]
  | case2 tail res queue ih =>
    rw [treeLoop, ih htail, entries_cons, children, List.append_nil, List.map_cons, nodes_cons,
      numNodes, Nat.zero_add, List.append_assoc]
    rfl
  | case3 val left right queue tail res hroom ih =>
    rw [treeLoop, if_pos hroom, ih (by omega), entries_cons, children, List.map_cons,
      nodes_children, List.append_assoc]
    -- two cells for the children of this node
    have hcells : tail + 2 + 2 * nodes (queue ++ [left, right]) =
        tail + 2 * (nodes (queue ++ [left, right]) + 1) := by omega
    rw [hcells]
    rfl
  | case4 val left right queue tail res hroom =>
    rw [treeLoop, if_neg hroom, nodes_children, if_neg (by omega)]

/-- **What the C wrapper prints**: all entries of a tree, if its queue has room for them. -/
theorem CWrapper.treeToJson_eq {t : BinaryTree Int32} (ht : t ≠ nil) :
    treeToJson t =
      if 2 * t.numNodes + 1 ≤ queueSize then some (.arr ((entries [t]).map entryJson)) else none := by
  have hloop := treeLoop_eq [t] (show 1 ≤ queueSize by decide) []
  have hnodes : nodes [t] = t.numNodes := by simp [nodes]
  rw [hnodes, List.nil_append, Nat.add_comm 1] at hloop
  cases t with
  | nil => exact absurd rfl ht
  | node val left right =>
    show (treeLoop [node val left right] 1 []).map Json.arr = _
    rw [hloop]
    split_ifs <;> rfl

theorem RustWrapper.treeLoop_eq (queue : List (BinaryTree Int32)) (result : List (Option Int32)) :
    treeLoop queue result = result ++ entries queue := by
  induction queue, result using treeLoop.induct with
  | case1 result => rw [treeLoop, entries_nil, List.append_nil]
  | case2 result val left right queue ih =>
    rw [treeLoop, ih, entries_cons, children, List.append_assoc]
    rfl
  | case3 result queue ih =>
    rw [treeLoop, ih, entries_cons, children, List.append_nil, List.append_assoc]
    rfl

theorem RustWrapper.entryText_eq (x : Option Int32) :
    entryText x = Json.print RustJson.rustEscape (entryJson x) := by
  cases x with
  | none => simp [entryText, entryJson, Json.print]
  | some x => rfl

/-- **What the Rust wrapper prints**: the entries without the nulls at the end. -/
theorem RustWrapper.treeToJson_eq (t : BinaryTree Int32) :
    treeToJson t = Json.print RustJson.rustEscape (.arr ((trimNils (entries [t])).map entryJson)) := by
  cases t with
  | nil => simp [treeToJson, entries_cons, entry, children, trimNils, Json.print]
  | node val left right =>
    have hentry : entryText = fun x => Json.print RustJson.rustEscape (entryJson x) :=
      funext entryText_eq
    show RustJson.joined ((trimNils (treeLoop [node val left right] [])).map entryText) = _
    rw [treeLoop_eq, List.nil_append, hentry, ← RustJson.joined_print, List.map_map]
    rfl

/-! ## Comparing the two -/

/-- The C wrapper prints a value within its queue, and `Compare` accepts it as equal to the
one that the Rust wrapper prints, in either order. -/
def SameOutput (cfg : CompareConfig) (t : BinaryTree Int32) : Prop :=
  ∃ c r, CWrapper.treeToJson t = some c ∧
    Json.parse (String.ofList (RustWrapper.treeToJson t)) = some r ∧
    compare (GoValue.ofJson r).1 (GoValue.ofJson c).1 cfg = true ∧
    compare (GoValue.ofJson c).1 (GoValue.ofJson r).1 cfg = true

theorem compare_arr_length {cfg : CompareConfig} {xs ys : List Json}
    (h : compare (GoValue.ofJson (.arr xs)).1 (GoValue.ofJson (.arr ys)).1 cfg = true) :
    xs.length = ys.length := by
  have hlength : ∀ zs : List Json, (GoValue.ofElements zs).1.length = zs.length := by
    intro zs
    induction zs with
    | nil => rfl
    | cons z zs ih => rw [GoValue.ofElements, List.length_cons, List.length_cons, ih]
  rw [GoValue.ofJson.eq_def, GoValue.ofJson.eq_def] at h
  unfold compare at h
  simp only at h
  rw [compareValue.eq_def] at h
  simp only [toSlice, Bool.and_eq_true, decide_eq_true_eq, hlength] at h
  exact h.1

/-- The last entry of a queue stands for a missing child. -/
theorem getLast?_entries {queue : List (BinaryTree Int32)} (h : queue ≠ []) :
    (entries queue).getLast? = some none := by
  induction queue using entries.induct with
  | case1 => exact absurd rfl h
  | case2 t queue ih =>
    rw [entries_cons]
    by_cases hmore : queue ++ children t = []
    · cases t with
      | nil =>
        rw [hmore, entries_nil]
        rfl
      | node v l r =>
        rw [children] at hmore
        simp at hmore
    · rw [List.getLast?_cons, ih hmore, Option.getD_some]

/-- Of the entries of a tree some are cut off. -/
theorem length_trimNils_lt (t : BinaryTree Int32) :
    (trimNils (entries [t])).length < (entries [t]).length := by
  obtain ⟨k, hk⟩ := trimNils_append (entries [t])
  have hpos : k ≠ 0 := by
    rintro rfl
    rw [List.replicate_zero, List.append_nil] at hk
    have hlast := getLast?_trimNils (entries [t])
    rw [← hk, getLast?_entries (List.cons_ne_nil t [])] at hlast
    exact hlast rfl
  conv_rhs => rw [hk]
  rw [List.length_append, List.length_replicate]
  omega

/-- **The two wrappers print equal values** for the empty tree, and for no other: what the
C wrapper prints is longer. -/
theorem tree_outputs_agree_iff (cfg : CompareConfig) (t : BinaryTree Int32) :
    SameOutput cfg t ↔ t = nil := by
  have hrust : ∀ u, Json.parse (String.ofList (RustWrapper.treeToJson u)) =
      some (.arr ((trimNils (entries [u])).map entryJson)) := by
    intro u
    rw [RustWrapper.treeToJson_eq, Json.parse_print]
  constructor
  · rintro ⟨c, r, hc, hr, hcompare, -⟩
    by_contra ht
    rw [CWrapper.treeToJson_eq ht] at hc
    split_ifs at hc
    rw [hrust] at hr
    rw [← Option.some.inj hc, ← Option.some.inj hr] at hcompare
    have hlength := compare_arr_length hcompare
    have hlt := length_trimNils_lt t
    rw [List.length_map, List.length_map] at hlength
    omega
  · rintro rfl
    have hempty : trimNils (entries [(nil : BinaryTree Int32)]) = [] := by
      simp [entries_cons, entry, children, trimNils]
    refine ⟨.null, _, rfl, hrust nil, ?_, ?_⟩
    · rw [hempty, List.map_nil, GoValue.ofJson.eq_def, GoValue.ofJson.eq_def]
      simp [GoValue.ofElements, compare, compareValue, nilOrEmpty, toSlice]
    · rw [hempty, List.map_nil, GoValue.ofJson.eq_def, GoValue.ofJson.eq_def]
      simp [GoValue.ofElements, compare, compareValue, nilOrEmpty, toSlice]

/-- A tree of one node: the C wrapper prints `[5, null, null]`, the Rust wrapper `[5]`. -/
theorem leaf_outputs_differ :
    CWrapper.treeToJson (node 5 nil nil) = some (.arr [CWrapper.newInt 5, .null, .null]) ∧
      RustWrapper.treeToJson (node 5 nil nil) =
        Json.print RustJson.rustEscape (.arr [CWrapper.newInt 5]) ∧
      ¬SameOutput {} (node 5 nil nil) := by
  have hentries : entries [node (5 : Int32) nil nil] = [some 5, none, none] := by
    simp [entries_cons, entry, children]
  have hc : CWrapper.treeToJson (node 5 nil nil) =
      some (.arr [CWrapper.newInt 5, .null, .null]) := by
    rw [CWrapper.treeToJson_eq (by simp), hentries]
    rfl
  have hr : RustWrapper.treeToJson (node 5 nil nil) =
      Json.print RustJson.rustEscape (.arr [CWrapper.newInt 5]) := by
    rw [RustWrapper.treeToJson_eq, hentries]
    rfl
  refine ⟨hc, hr, ?_⟩
  rintro ⟨c, r, hc', hr', hcompare, -⟩
  rw [hr, Json.parse_print] at hr'
  rw [hc] at hc'
  rw [← Option.some.inj hc', ← Option.some.inj hr'] at hcompare
  exact absurd (compare_arr_length hcompare) (by decide)

end Judge
