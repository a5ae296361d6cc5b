/-
# Binary trees in level order

The entries of a binary tree from the top to the bottom and from left to right, a
missing child being an entry of its own, and the trees that grow out of such entries.

* `entries` : the entries of a queue of trees, those of the children last.
* `grow` : the trees under a queue of values, their children taken from the front of a
  list of entries; entries that are missing at its end stand for missing children.
* `grow_entries`, `entries_grow` : the two are inverse to each other.
* `all_grow` : the values of a tree that has grown are among those it has grown from.
-/
import Mathlib

namespace LevelOrder

open BinaryTree

variable {α : Type*}

/-! ## Entries -/

/-- The value of a tree, or that there is no tree. -/
def entry : BinaryTree α → Option α
  | nil => none
  | node v _ _ => some v

def children : BinaryTree α → List (BinaryTree α)
  | nil => []
  | node _ l r => [l, r]

/-- How many entries the trees of a queue have. -/
def weight (q : List (BinaryTree α)) : ℕ := (q.map fun t => 2 * t.numNodes + 1).sum

/-- The entries of a queue of trees: the first tree hands in its value, and its children
queue up. -/
def entries : List (BinaryTree α) → List (Option α)
  | [] => []
  | t :: q => entry t :: entries (q ++ children t)
termination_by q => weight q
decreasing_by
  cases t with
  | nil => simp [weight, children]
  | node v l r =>
    simp only [weight, children, List.map_append, List.sum_append, List.map_cons, List.sum_cons,
      List.map_nil, List.sum_nil, numNodes]
    omega

@[simp] theorem entries_nil : entries ([] : List (BinaryTree α)) = [] := by rw [entries]

theorem entries_cons (t : BinaryTree α) (q : List (BinaryTree α)) :
    entries (t :: q) = entry t :: entries (q ++ children t) := by rw [entries]

/-- Two trees at once. -/
theorem entries_cons_cons (t u : BinaryTree α) (q : List (BinaryTree α)) :
    entries (t :: u :: q) = entry t :: entry u :: entries (q ++ children t ++ children u) := by
  rw [entries_cons, List.cons_append, entries_cons]

/-- Every entry has a place in the queue or a parent before it. -/
theorem lt_of_lt_length_entries {q : List (BinaryTree α)} {i : ℕ} (h : i < (entries q).length) :
    i < q.length + 2 * ((entries q).take i).countP Option.isSome := by
  induction i generalizing q with
  | zero =>
    cases q with
    | nil => rwa [entries_nil] at h
    | cons t q => simp
  | succ i ih =>
    cases q with
    | nil =>
      rw [entries_nil] at h
      cases h
    | cons t q =>
      rw [entries_cons, List.length_cons] at h
      have hnext := ih (by omega : i < (entries (q ++ children t)).length)
      rw [entries_cons, List.take_succ_cons, List.countP_cons]
      cases t with
      | nil =>
        rw [children, List.append_nil] at hnext ⊢
        simp only [entry, Option.isSome_none, Bool.false_eq_true, if_false, List.length_cons]
        omega
      | node v l r =>
        rw [List.length_append, children] at hnext
        simp only [List.length_cons, List.length_nil] at hnext
        simp only [entry, children, Option.isSome_some, if_true, List.length_cons]
        omega

/-- A tree for each entry that is there. -/
def present (xs : List (Option α)) : List α := xs.filterMap id

/-- When all entries are missing, the queue holds no tree. -/
theorem eq_nil_of_entries {q : List (BinaryTree α)} (h : ∀ x ∈ entries q, x = none) :
    ∀ t ∈ q, t = nil := by
  induction q with
  | nil => exact fun _ h => nomatch h
  | cons t q ih =>
    rw [entries_cons] at h
    obtain ⟨ht, hq⟩ := List.forall_mem_cons.mp h
    cases t with
    | nil =>
      rw [children, List.append_nil] at hq
      exact List.forall_mem_cons.mpr ⟨rfl, ih hq⟩
    | node v l r => cases ht

/-! ## Growing -/

/-- A value without children. -/
def leaf (v : α) : BinaryTree α := node v nil nil

/-- The child that stands for an entry, and the other trees that have grown with it. -/
def child : Option α → List (BinaryTree α) → BinaryTree α × List (BinaryTree α)
  | some _, t :: ts => (t, ts)
  | _, ts => (nil, ts)

/-- The trees under the values of a queue.  The first value takes two entries, or the one
that is left; the values among them queue up. -/
def grow : List α → List (Option α) → List (BinaryTree α)
  | [], _ => []
  | q, [] => q.map leaf
  | v :: q, x :: ds =>
    let y := ds.head?.join
    let ts := grow (q ++ x.toList ++ y.toList) ds.tail
    let rest := ts.drop q.length
    let left := child x rest
    let right := child y left.2
    node v left.1 right.1 :: ts.take q.length
termination_by _ ds => ds.length
decreasing_by simp

/-- What growing from a first value and a first entry comes to. -/
theorem grow_cons_cons (v : α) (q : List α) (x : Option α) (ds : List (Option α)) :
    grow (v :: q) (x :: ds) =
      (let y := ds.head?.join
      let ts := grow (q ++ x.toList ++ y.toList) ds.tail
      let left := child x (ts.drop q.length)
      node v left.1 (child y left.2).1 :: ts.take q.length) := by
  rw [grow]

theorem grow_nil_right (q : List α) : grow q [] = q.map leaf := by
  cases q with
  | nil => rw [grow, List.map_nil]
  | cons v q =>
    rw [grow]
    exact fun h => nomatch h

/-! ## Growing from entries -/

/-- The tree itself, if it has a node. -/
def grown : BinaryTree α → List (BinaryTree α)
  | nil => []
  | node v l r => [node v l r]

@[simp] theorem flatMap_grown (t : BinaryTree α) : (grown t).flatMap children = children t := by
  cases t with
  | nil => rfl
  | node v l r => simp [grown]

@[simp] theorem filterMap_grown (t : BinaryTree α) :
    (grown t).filterMap entry = (entry t).toList := by
  cases t with
  | nil => rfl
  | node v l r => rfl

theorem ne_nil_of_mem_grown {t u : BinaryTree α} (h : u ∈ grown t) : u ≠ nil := by
  cases t with
  | nil => exact nomatch h
  | node v l r =>
    rw [List.mem_singleton.mp h]
    exact fun h => nomatch h

theorem child_grown (t : BinaryTree α) (ts : List (BinaryTree α)) :
    child (entry t) (grown t ++ ts) = (t, ts) := by
  cases t with
  | nil => rfl
  | node v l r => rfl

theorem filterMap_entry_cons (v : α) (l r : BinaryTree α) (ts : List (BinaryTree α)) :
    (node v l r :: ts).filterMap entry = v :: ts.filterMap entry := rfl

theorem length_filterMap_entry {ts : List (BinaryTree α)} (h : ∀ t ∈ ts, t ≠ nil) :
    (ts.filterMap entry).length = ts.length := by
  induction ts with
  | nil => rfl
  | cons t ts ih =>
    obtain ⟨ht, hts⟩ := List.forall_mem_cons.mp h
    cases t with
    | nil => exact absurd rfl ht
    | node v l r => rw [filterMap_entry_cons, List.length_cons, ih hts, List.length_cons]

/-- Trees without children grow from no entries. -/
theorem map_leaf_of_childless {ts : List (BinaryTree α)} (h : ∀ t ∈ ts, t ≠ nil)
    (hc : ∀ t ∈ ts.flatMap children, t = nil) : (ts.filterMap entry).map leaf = ts := by
  induction ts with
  | nil => rfl
  | cons t ts ih =>
    obtain ⟨ht, hts⟩ := List.forall_mem_cons.mp h
    rw [List.flatMap_cons, List.forall_mem_append] at hc
    cases t with
    | nil => exact absurd rfl ht
    | node v l r =>
      have hl : l = nil := hc.1 l (by simp [children])
      have hr : r = nil := hc.1 r (by simp [children])
      rw [filterMap_entry_cons, List.map_cons, ih hts hc.2, hl, hr]
      rfl

/-- **Trees grow back from the entries of their children**, of which any number may be
cut off at the end as long as they are missing. -/
theorem grow_entries {ts : List (BinaryTree α)} (h : ∀ t ∈ ts, t ≠ nil) {ds : List (Option α)}
    {k : ℕ} (hds : entries (ts.flatMap children) = ds ++ List.replicate k none) :
    grow (ts.filterMap entry) ds = ts := by
  induction hn : ds.length using Nat.strong_induction_on generalizing ts ds k with
  | _ n ih =>
    cases ts with
    | nil => rw [List.filterMap_nil, grow]
    | cons t ts =>
      cases ds with
      | nil =>
        rw [grow_nil_right]
        refine map_leaf_of_childless h (eq_nil_of_entries fun x hx => ?_)
        rw [hds, List.nil_append] at hx
        exact List.eq_of_mem_replicate hx
      | cons x ds =>
        obtain ⟨ht, hts⟩ := List.forall_mem_cons.mp h
        cases t with
        | nil => exact absurd rfl ht
        | node v l r =>
          rw [List.flatMap_cons, children, List.cons_append, List.cons_append, List.nil_append,
            entries_cons_cons, List.cons_append] at hds
          obtain ⟨hx, htail⟩ := List.cons.inj hds
          subst hx
          clear hds
          -- the second entry may be one of those that were cut off
          obtain ⟨hy, k', hrest⟩ : ds.head?.join = entry r ∧ ∃ k', entries
              (ts.flatMap children ++ children l ++ children r) =
                ds.tail ++ List.replicate k' none := by
            cases ds with
            | nil =>
              cases k with
              | zero => exact nomatch htail
              | succ k =>
                obtain ⟨hr, hrest⟩ := List.cons.inj htail
                exact ⟨hr.symm, k, hrest⟩
            | cons y ds =>
              obtain ⟨hr, hrest⟩ := List.cons.inj htail
              exact ⟨hr.symm, k, hrest⟩
          have hgrown : ∀ t ∈ ts ++ grown l ++ grown r, t ≠ nil := by
            simp only [List.mem_append]
            rintro t ((ht | ht) | ht)
            · exact hts t ht
            · exact ne_nil_of_mem_grown ht
            · exact ne_nil_of_mem_grown ht
          have hnext : grow ((ts ++ grown l ++ grown r).filterMap entry) ds.tail =
              ts ++ grown l ++ grown r := by
            refine ih ds.tail.length ?_ hgrown (k := k') ?_ rfl
            · rw [← hn, List.length_tail, List.length_cons]
              omega
            · rw [List.flatMap_append, List.flatMap_append, flatMap_grown, flatMap_grown, hrest]
          rw [List.filterMap_append, List.filterMap_append, filterMap_grown, filterMap_grown] at hnext
          rw [filterMap_entry_cons, grow_cons_cons]
          simp only [hy, hnext, length_filterMap_entry hts]
          rw [List.append_assoc, List.drop_left, List.take_left, child_grown]
          have hr : child (entry r) (grown r) = (r, []) := by
            have h := child_grown r []
            rwa [List.append_nil] at h
          rw [hr]

/-! ## Entries of what has grown -/

/-- What grows from a queue has the values of the queue. -/
theorem map_entry_grow (q : List α) (ds : List (Option α)) :
    (grow q ds).map entry = q.map some := by
  induction hn : ds.length using Nat.strong_induction_on generalizing q ds with
  | _ n ih =>
    cases q with
    | nil => rw [grow, List.map_nil, List.map_nil]
    | cons v q =>
      cases ds with
      | nil =>
        rw [grow_nil_right, List.map_map]
        rfl
      | cons x ds =>
        have hnext := ih ds.tail.length (by rw [← hn, List.length_tail, List.length_cons]; omega)
          (q ++ x.toList ++ ds.head?.join.toList) ds.tail rfl
        rw [grow_cons_cons]
        simp only [List.map_cons, List.map_take, hnext]
        have hlength : q.length = (q.map some).length := (List.length_map _).symm
        rw [List.append_assoc, List.map_append, hlength, List.take_left]
        rfl

theorem length_grow (q : List α) (ds : List (Option α)) : (grow q ds).length = q.length := by
  rw [← List.length_map (f := entry), map_entry_grow, List.length_map]

/-- Every entry belongs to a value that came before it: a queue of `n` values takes two
entries for each value, those it grows by included. -/
def Fed : ℕ → List (Option α) → Prop
  | _, [] => True
  | 0, _ :: _ => False
  | n + 1, [x] => Fed (n + x.toList.length) []
  | n + 1, x :: y :: ds => Fed (n + x.toList.length + y.toList.length) ds

theorem Fed.tail {n : ℕ} {x : Option α} {ds : List (Option α)} (h : Fed (n + 1) (x :: ds)) :
    Fed (n + x.toList.length + ds.head?.join.toList.length) ds.tail := by
  cases ds with
  | nil => exact trivial
  | cons y ds => exact h

/-- The children that two entries stand for, among the trees with those values. -/
theorem child_entries {x y : Option α} {ts : List (BinaryTree α)}
    (h : ts.map entry = (x.toList ++ y.toList).map some) :
    entry (child x ts).1 = x ∧ entry (child y (child x ts).2).1 = y ∧
      children (child x ts).1 ++ children (child y (child x ts).2).1 = ts.flatMap children := by
  cases x with
  | none =>
    cases y with
    | none =>
      obtain rfl := List.map_eq_nil_iff.mp h
      exact ⟨rfl, rfl, rfl⟩
    | some b =>
      obtain ⟨t, rfl, ht⟩ := List.map_eq_singleton_iff.mp h
      exact ⟨rfl, ht, by simp [child, children]⟩
  | some a =>
    cases y with
    | none =>
      obtain ⟨t, rfl, ht⟩ := List.map_eq_singleton_iff.mp h
      exact ⟨ht, rfl, by simp [child, children]⟩
    | some b =>
      obtain ⟨t, ts, rfl, ht, hts⟩ := List.map_eq_cons_iff.mp h
      obtain ⟨u, rfl, hu⟩ := List.map_eq_singleton_iff.mp hts
      exact ⟨ht, hu, by simp [child]⟩

theorem entries_replicate_nil (n : ℕ) :
    entries (List.replicate n (nil : BinaryTree α)) = List.replicate n none := by
  induction n with
  | zero => rw [List.replicate_zero, List.replicate_zero, entries_nil]
  | succ n ih =>
    rw [List.replicate_succ, List.replicate_succ, entries_cons, children, List.append_nil, ih]
    rfl

/-- **What has grown from entries has these entries**, up to missing ones at the end. -/
theorem entries_grow {q : List α} {ds : List (Option α)} (h : Fed q.length ds) :
    ∃ k, entries ((grow q ds).flatMap children) = ds ++ List.replicate k none := by
  induction hn : ds.length using Nat.strong_induction_on generalizing q ds with
  | _ n ih =>
    cases ds with
    | nil =>
      rw [grow_nil_right]
      refine ⟨2 * q.length, ?_⟩
      have hchildren : (q.map leaf).flatMap children =
          List.replicate (2 * q.length) (nil : BinaryTree α) := by
        clear h
        induction q with
        | nil => rfl
        | cons v q ihq =>
          rw [List.map_cons, List.flatMap_cons, ihq]
          rfl
      rw [hchildren, entries_replicate_nil, List.nil_append]
    | cons x ds =>
      cases q with
      | nil => exact absurd h id
      | cons v q =>
        set y := ds.head?.join with hy
        set ts := grow (q ++ x.toList ++ y.toList) ds.tail with hts
        have hfed : Fed (q ++ x.toList ++ y.toList).length ds.tail := by
          rw [List.length_append, List.length_append]
          exact h.tail
        obtain ⟨k, hk⟩ := ih ds.tail.length
          (by rw [← hn, List.length_tail, List.length_cons]; omega) hfed rfl
        have hrest : (ts.drop q.length).map entry = (x.toList ++ y.toList).map some := by
          have hlength : q.length = (q.map some).length := (List.length_map _).symm
          rw [List.map_drop, hts, map_entry_grow, List.append_assoc, List.map_append, hlength,
            List.drop_left]
        obtain ⟨hleft, hright, hchildren⟩ := child_entries hrest
        have hkids : (grow (v :: q) (x :: ds)).flatMap children =
            (child x (ts.drop q.length)).1 ::
              (child y (child x (ts.drop q.length)).2).1 :: (ts.take q.length).flatMap children := by
          rw [grow_cons_cons]
          rfl
        rw [hkids, entries_cons_cons, hleft, hright, List.append_assoc, hchildren,
          ← List.flatMap_append, List.take_append_drop, hk]
        cases ds with
        | nil => exact ⟨k + 1, rfl⟩
        | cons d ds => exact ⟨k, rfl⟩

/-! ## Heights -/

theorem height_child_le {x : Option α} {ts : List (BinaryTree α)} {n : ℕ}
    (h : ∀ t ∈ ts, t.height ≤ n) :
    (child x ts).1.height ≤ n ∧ ∀ t ∈ (child x ts).2, t.height ≤ n := by
  cases x with
  | none => exact ⟨Nat.zero_le n, h⟩
  | some v =>
    cases ts with
    | nil => exact ⟨Nat.zero_le n, h⟩
    | cons t ts => exact List.forall_mem_cons.mp h

/-- Every level of a tree takes an entry. -/
theorem height_le_of_mem_grow (q : List α) (ds : List (Option α)) :
    ∀ t ∈ grow q ds, t.height ≤ ds.length + 1 := by
  induction hn : ds.length using Nat.strong_induction_on generalizing q ds with
  | _ n ih =>
    cases ds with
    | nil =>
      rw [grow_nil_right]
      intro t ht
      obtain ⟨v, -, rfl⟩ := List.mem_map.mp ht
      simp [leaf, height]
    | cons x ds =>
      cases q with
      | nil =>
        rw [grow]
        exact fun _ h => nomatch h
      | cons v q =>
        have hlt : ds.tail.length + 1 ≤ n := by
          rw [← hn, List.length_tail, List.length_cons]
          omega
        have hnext := ih ds.tail.length hlt (q ++ x.toList ++ ds.head?.join.toList) ds.tail rfl
        rw [grow_cons_cons]
        simp only
        obtain ⟨hleft, hrest⟩ := height_child_le (x := x)
          fun t ht => hnext t (List.mem_of_mem_drop (i := q.length) ht)
        obtain ⟨hright, -⟩ := height_child_le (x := ds.head?.join) hrest
        refine List.forall_mem_cons.mpr ⟨?_, fun t ht => ?_⟩
        · rw [height]
          omega
        · have := hnext t (List.mem_of_mem_take ht)
          omega

/-! ## Values -/

/-- All values of a tree have a property. -/
def All (P : α → Prop) : BinaryTree α → Prop
  | nil => True
  | node v l r => P v ∧ All P l ∧ All P r

theorem All.imp {P Q : α → Prop} (h : ∀ v, P v → Q v) {t : BinaryTree α} (ht : All P t) :
    All Q t := by
  induction t with
  | nil => trivial
  | node v l r ihl ihr => exact ⟨h v ht.1, ihl ht.2.1, ihr ht.2.2⟩

theorem all_map_iff {β : Type*} {P : β → Prop} {f : α → β} {t : BinaryTree α} :
    All P (t.map f) ↔ All (fun v => P (f v)) t := by
  induction t with
  | nil => exact Iff.rfl
  | node v l r ihl ihr =>
    rw [map, All, All, ihl, ihr]

theorem all_child {P : α → Prop} {x : Option α} {ts : List (BinaryTree α)}
    (h : ∀ t ∈ ts, All P t) : All P (child x ts).1 ∧ ∀ t ∈ (child x ts).2, All P t := by
  cases x with
  | none => exact ⟨trivial, h⟩
  | some v =>
    cases ts with
    | nil => exact ⟨trivial, h⟩
    | cons t ts => exact List.forall_mem_cons.mp h

/-- **What all values and entries have** the values of the trees that grow have too. -/
theorem all_grow {P : α → Prop} {q : List α} {ds : List (Option α)} (hq : ∀ v ∈ q, P v)
    (hds : ∀ v, some v ∈ ds → P v) : ∀ t ∈ grow q ds, All P t := by
  induction hn : ds.length using Nat.strong_induction_on generalizing q ds with
  | _ n ih =>
    cases ds with
    | nil =>
      rw [grow_nil_right]
      intro t ht
      obtain ⟨v, hv, rfl⟩ := List.mem_map.mp ht
      exact ⟨hq v hv, trivial, trivial⟩
    | cons x ds =>
      cases q with
      | nil =>
        rw [grow]
        intro t ht
        exact absurd ht List.not_mem_nil
      | cons v q =>
        have hlt : ds.tail.length < n := by
          rw [← hn, List.length_tail, List.length_cons]
          omega
        have htail : ∀ w, some w ∈ ds.tail → P w := fun w hw =>
          hds w (List.mem_cons_of_mem x (List.mem_of_mem_tail hw))
        have hhead : ∀ w ∈ ds.head?.join, P w := by
          intro w hw
          have hmem : some w ∈ ds.head? := by
            cases hd : ds.head? with
            | none => rw [hd] at hw; cases hw
            | some y => rw [hd] at hw; exact congrArg some hw
          exact hds w (List.mem_cons_of_mem x (List.mem_of_mem_head? hmem))
        have hqueue : ∀ w ∈ q ++ x.toList ++ ds.head?.join.toList, P w := by
          intro w hw
          rw [List.mem_append, List.mem_append, Option.mem_toList, Option.mem_toList] at hw
          rcases hw with (hw | hw) | hw
          · exact hq w (List.mem_cons_of_mem v hw)
          · exact hds w (by rw [Option.mem_def.mp hw]; exact List.mem_cons_self)
          · exact hhead w hw
        have hnext := ih ds.tail.length hlt hqueue htail rfl
        rw [grow_cons_cons]
        simp only
        obtain ⟨hleft, hrest⟩ := all_child (x := x)
          fun t ht => hnext t (List.mem_of_mem_drop (i := q.length) ht)
        obtain ⟨hright, -⟩ := all_child (x := ds.head?.join) hrest
        exact List.forall_mem_cons.mpr ⟨⟨hq v List.mem_cons_self, hleft, hright⟩,
          fun t ht => hnext t (List.mem_of_mem_take ht)⟩

end LevelOrder
