/-
# Trees on the wire

Binary trees are sent as arrays in level order (`pkg/types/tree.go`).  `BuildTree`
allocates a node for each entry that is not nil and hangs it under a node of its queue;
`SerializeTree` reads a tree with a queue of its own and cuts off the nils at the end.

A value `interface{}` that may be nil is an `Option`.  The nodes that `BuildTree` makes
are numbered in the order of their allocation; `toTree` follows the pointers.

* `buildLoop_points` : what the loop hangs under the nodes of its queue has grown from
  the entries.
* `tree_codec` : building and serializing are inverse to each other.
-/
import JudgePlatform.Library.LevelOrder

namespace Judge

open BinaryTree LevelOrder

variable {α : Type*}

/-! ## Building -/

/-- A node in memory; a pointer is the number of a node. -/
structure TreeNode (α : Type*) where
  val : Option α
  left : Option ℕ := none
  right : Option ℕ := none

/-- The nodes that have been allocated. -/
abbrev Nodes (α : Type*) := List (TreeNode α)

/-- `&TreeNode{Val: v}`. -/
def newNode (v : α) : TreeNode α := { val := some v }

/-- One child: a node is allocated for an entry that is not nil, `link` hangs it under its
parent, and it queues up. -/
def addChild (link : ℕ → TreeNode α → TreeNode α) (parent : ℕ) (d : Option α)
    (s : Nodes α × List ℕ) : Nodes α × List ℕ :=
  match d with
  | none => s
  | some v =>
    let new := s.1.length
    ((s.1 ++ [newNode v]).modify parent (link new), s.2 ++ [new])

def setLeft (new : ℕ) (n : TreeNode α) : TreeNode α := { n with left := some new }

def setRight (new : ℕ) (n : TreeNode α) : TreeNode α := { n with right := some new }

/-- The loop of `BuildTree` over its queue and the data from `i` on. -/
def buildLoop : Nodes α → List ℕ → List (Option α) → Nodes α
  | nodes, [], _ => nodes
  | nodes, _, [] => nodes
  | nodes, parent :: queue, [d] => (addChild setLeft parent d (nodes, queue)).1
  | nodes, parent :: queue, d :: d' :: data =>
    let s := addChild setRight parent d' (addChild setLeft parent d (nodes, queue))
    buildLoop s.1 s.2 data

/-- The tree behind a pointer, down to a depth. -/
def toTree (nodes : Nodes α) : ℕ → Option ℕ → BinaryTree (Option α)
  | 0, _ => nil
  | _, none => nil
  | depth + 1, some i =>
    match nodes[i]? with
    | none => nil
    | some n => node n.val (toTree nodes depth n.left) (toTree nodes depth n.right)

/-- `BuildTree`; no tree is deeper than there are entries. -/
def buildTree : List (Option α) → BinaryTree (Option α)
  | [] => nil
  | none :: _ => nil
  | some v :: data =>
    toTree (buildLoop [newNode v] [0] data) (data.length + 1) (some 0)

/-! ## Serializing -/

/-- The loop of `SerializeTree` over its queue. -/
def serializeLoop : List (BinaryTree (Option α)) → List (Option α)
  | [] => []
  | nil :: queue => none :: serializeLoop queue
  | node v l r :: queue => v :: serializeLoop (queue ++ [l, r])
termination_by queue => weight queue
decreasing_by
  · simp [weight]
  · simp only [weight, List.map_append, List.sum_append, List.map_cons, List.sum_cons,
      List.map_nil, List.sum_nil, numNodes]
    omega

/-- The nils at the end are cut off. -/
def trimNils (result : List (Option α)) : List (Option α) :=
  (result.reverse.dropWhile Option.isNone).reverse

/-- `SerializeTree`. -/
def serializeTree : BinaryTree (Option α) → List (Option α)
  | nil => []
  | t => trimNils (serializeLoop [t])

/-! ## What the loop builds -/

/-- A pointer and the tree behind it, whose values are not nil. -/
inductive Points (nodes : Nodes α) : Option ℕ → BinaryTree α → Prop
  | nil : Points nodes none nil
  | node {i : ℕ} {v : α} {l r : Option ℕ} {t u : BinaryTree α} (hi : nodes[i]? = some ⟨some v, l, r⟩)
    (hl : Points nodes l t) (hr : Points nodes r u) : Points nodes (some i) (node v t u)

/-- Pointers are followed to the tree behind them. -/
theorem toTree_of_points {nodes : Nodes α} {p : Option ℕ} {t : BinaryTree α}
    (h : Points nodes p t) {depth : ℕ} (hdepth : t.height ≤ depth) :
    toTree nodes depth p = t.map some := by
  induction h generalizing depth with
  | nil =>
    cases depth with
    | zero => rfl
    | succ depth => rfl
  | @node i v l r t u hi _ _ iht ihu =>
    rw [height] at hdepth
    obtain ⟨depth, rfl⟩ : ∃ d, depth = d + 1 := ⟨depth - 1, by omega⟩
    rw [toTree]
    simp only [hi]
    rw [iht (by omega), ihu (by omega), map]

/-- The pointer to the node that is allocated for an entry. -/
def allocated (nodes : Nodes α) (d : Option α) : Option ℕ := d.map fun _ => nodes.length

theorem eq_of_mem_allocated {nodes : Nodes α} {d : Option α} {i : ℕ}
    (h : i ∈ (allocated nodes d).toList) : i = nodes.length := by
  cases d with
  | none => exact nomatch h
  | some v => exact List.mem_singleton.mp h

theorem nodup_toList {β : Type*} (o : Option β) : o.toList.Nodup := by
  cases o with
  | none => exact List.nodup_nil
  | some b => exact List.nodup_singleton b

/-- What adding one child comes to. -/
structure Added (link : ℕ → TreeNode α → TreeNode α) (parent : ℕ) (d : Option α) (nodes : Nodes α)
    (queue : List ℕ) (s : Nodes α × List ℕ) : Prop where
  queue : s.2 = queue ++ (allocated nodes d).toList
  length : s.1.length = nodes.length + (allocated nodes d).toList.length
  frame : ∀ i, i ≠ parent → i < nodes.length → s.1[i]? = nodes[i]?
  parent : s.1[parent]? =
    nodes[parent]?.map fun n => ((allocated nodes d).map fun new => link new n).getD n
  child : ∀ v, d = some v → s.1[nodes.length]? = some (newNode v)

theorem addChild_added (link : ℕ → TreeNode α → TreeNode α) {parent : ℕ} (d : Option α)
    {nodes : Nodes α} (hparent : parent < nodes.length) (queue : List ℕ) :
    Added link parent d nodes queue (addChild link parent d (nodes, queue)) := by
  cases d with
  | none =>
    refine ⟨(List.append_nil queue).symm, rfl, fun i _ _ => rfl, ?_, fun v h => nomatch h⟩
    show nodes[parent]? = nodes[parent]?.map fun n => n
    rw [Option.map_id']
  | some v =>
    refine ⟨rfl, ?_, fun i hi hlt => ?_, ?_, fun w hw => ?_⟩
    · show ((nodes ++ [newNode v]).modify parent _).length = nodes.length + 1
      rw [List.length_modify, List.length_append, List.length_singleton]
    · show ((nodes ++ [newNode v]).modify parent _)[i]? = _
      rw [List.getElem?_modify_ne _ _ (Ne.symm hi), List.getElem?_append_left hlt]
    · show ((nodes ++ [newNode v]).modify parent _)[parent]? = _
      rw [List.getElem?_modify_eq, List.getElem?_append_left hparent]
      rfl
    · cases hw
      show ((nodes ++ [newNode v]).modify parent _)[nodes.length]? = _
      rw [List.getElem?_modify_ne _ _ (by omega), List.getElem?_concat_length]

theorem buildLoop_nil (nodes : Nodes α) (queue : List ℕ) : buildLoop nodes queue [] = nodes := by
  cases queue with
  | nil => rw [buildLoop]
  | cons i queue =>
    rw [buildLoop]
    exact fun h => nomatch h

/-- A turn of the loop, whether it has one entry or two. -/
theorem buildLoop_cons (nodes : Nodes α) (parent : ℕ) (queue : List ℕ) (d : Option α)
    (ds : List (Option α)) :
    buildLoop nodes (parent :: queue) (d :: ds) =
      (let s := addChild setRight parent ds.head?.join (addChild setLeft parent d (nodes, queue))
      buildLoop s.1 s.2 ds.tail) := by
  cases ds with
  | nil =>
    show _ = buildLoop (addChild setLeft parent d (nodes, queue)).1 _ []
    rw [buildLoop_nil, buildLoop]
  | cons d' ds =>
    rw [buildLoop]
    rfl

/-- Nodes that have been allocated for values and still have no children. -/
def Bare (nodes : Nodes α) (queue : List ℕ) (vs : List α) : Prop :=
  List.Forall₂ (fun i v => nodes[i]? = some (newNode v)) queue vs

theorem Bare.lt {nodes : Nodes α} {queue : List ℕ} {vs : List α} (h : Bare nodes queue vs) :
    ∀ i ∈ queue, i < nodes.length := by
  induction h with
  | nil => exact fun _ h => nomatch h
  | cons hi _ ih => exact List.forall_mem_cons.mpr ⟨(List.getElem?_eq_some_iff.mp hi).1, ih⟩

/-- Nodes stay bare as long as nothing is hung under them. -/
theorem Bare.of_frame {nodes nodes' : Nodes α} {queue : List ℕ} {vs : List α}
    (h : Bare nodes queue vs) (hframe : ∀ i ∈ queue, nodes'[i]? = nodes[i]?) :
    Bare nodes' queue vs := by
  induction h with
  | nil => exact .nil
  | cons hi _ ih =>
    obtain ⟨hhead, htail⟩ := List.forall_mem_cons.mp hframe
    exact .cons (hhead.trans hi) (ih htail)

/-- The pointers of a node, and the trees that have grown under it. -/
theorem points_children {nodes : Nodes α} {l r : Option ℕ} {d d' : Option α}
    {ts : List (BinaryTree α)} (hl : l.isSome = d.isSome) (hr : r.isSome = d'.isSome)
    (h : List.Forall₂ (fun i t => Points nodes (some i) t) (l.toList ++ r.toList) ts) :
    Points nodes l (child d ts).1 ∧ Points nodes r (child d' (child d ts).2).1 := by
  cases d with
  | none =>
    obtain rfl := Option.not_isSome_iff_eq_none.mp (by rw [hl]; exact Bool.false_ne_true)
    cases d' with
    | none =>
      obtain rfl := Option.not_isSome_iff_eq_none.mp (by rw [hr]; exact Bool.false_ne_true)
      exact ⟨.nil, .nil⟩
    | some v' =>
      obtain ⟨j, rfl⟩ := Option.isSome_iff_exists.mp hr
      cases h with
      | cons hu _ => exact ⟨.nil, hu⟩
  | some v =>
    obtain ⟨i, rfl⟩ := Option.isSome_iff_exists.mp hl
    cases h with
    | cons ht hrest =>
      cases d' with
      | none =>
        obtain rfl := Option.not_isSome_iff_eq_none.mp (by rw [hr]; exact Bool.false_ne_true)
        exact ⟨ht, .nil⟩
      | some v' =>
        obtain ⟨j, rfl⟩ := Option.isSome_iff_exists.mp hr
        cases hrest with
        | cons hu _ => exact ⟨ht, hu⟩

/-- Both children of a node: where they are, and that all other nodes are as before. -/
theorem addChildren_spec {nodes : Nodes α} {parent : ℕ} {queue : List ℕ} {v : α} {vs : List α}
    (hnodup : (parent :: queue).Nodup) (hparent : nodes[parent]? = some (newNode v))
    (hbare : Bare nodes queue vs) (d d' : Option α) :
    let s := addChild setRight parent d' (addChild setLeft parent d (nodes, queue))
    ∃ l r : Option ℕ, l.isSome = d.isSome ∧ r.isSome = d'.isSome ∧
      s.2 = queue ++ (l.toList ++ r.toList) ∧ (parent :: s.2).Nodup ∧
      s.1[parent]? = some ⟨some v, l, r⟩ ∧ Bare s.1 s.2 (vs ++ d.toList ++ d'.toList) ∧
      (nodes.length ≤ s.1.length ∧ ∀ i < nodes.length, i ∉ parent :: queue →
        s.1[i]? = nodes[i]? ∧ i ∉ s.2) := by
  intro s
  have hlt : parent < nodes.length := (List.getElem?_eq_some_iff.mp hparent).1
  obtain ⟨hout, hnodup⟩ := List.nodup_cons.mp hnodup
  set s₁ := addChild setLeft parent d (nodes, queue) with hs₁
  have h₁ : Added setLeft parent d nodes queue s₁ := addChild_added setLeft d hlt queue
  have hlt₁ : parent < s₁.1.length := by
    rw [h₁.length]
    omega
  have h₂ : Added setRight parent d' s₁.1 s₁.2 s := addChild_added setRight d' hlt₁ s₁.2
  have hlength : nodes.length ≤ s.1.length := by
    rw [h₂.length, h₁.length]
    omega
  have hqueue : s.2 = queue ++ ((allocated nodes d).toList ++ (allocated s₁.1 d').toList) := by
    rw [h₂.queue, h₁.queue, List.append_assoc]
  have hframe : ∀ i < nodes.length, i ≠ parent → s.1[i]? = nodes[i]? := by
    intro i hi hne
    rw [h₂.frame i hne (by rw [h₁.length]; omega), h₁.frame i hne hi]
  have hnew₁ : ∀ i ∈ (allocated nodes d).toList, i = nodes.length := fun i hi =>
    eq_of_mem_allocated hi
  have hnew₂ : ∀ i ∈ (allocated s₁.1 d').toList, i = s₁.1.length := fun i hi =>
    eq_of_mem_allocated hi
  have hnew : ∀ i ∈ (allocated nodes d).toList ++ (allocated s₁.1 d').toList, nodes.length ≤ i := by
    intro i hi
    rcases List.mem_append.mp hi with hi | hi
    · exact (hnew₁ i hi).ge
    · rw [hnew₂ i hi, h₁.length]
      omega
  refine ⟨allocated nodes d, allocated s₁.1 d', Option.isSome_map, Option.isSome_map, hqueue,
    ?_, ?_, ?_, hlength, fun i hi hmem => ?_⟩
  · rw [hqueue, List.nodup_cons, List.nodup_append, List.nodup_append, List.mem_append]
    refine ⟨?_, hnodup, ⟨nodup_toList _, nodup_toList _, ?_⟩, ?_⟩
    · rintro (h | h)
      · exact hout h
      · have := hnew parent h
        omega
    · intro i hi j hj
      have hpos := List.length_pos_of_mem hi
      have hlength₁ := h₁.length
      have hi := hnew₁ i hi
      have hj := hnew₂ j hj
      omega
    · intro i hi j hj
      have := hbare.lt i hi
      have := hnew j hj
      omega
  · rw [h₂.parent, h₁.parent, hparent]
    cases d with
    | none =>
      cases d' with
      | none => rfl
      | some w' => rfl
    | some w =>
      cases d' with
      | none => rfl
      | some w' => rfl
  · rw [hqueue, List.append_assoc]
    refine List.rel_append (hbare.of_frame fun i hi => ?_) (List.rel_append ?_ ?_)
    · exact hframe i (hbare.lt i hi) fun h => hout (h ▸ hi)
    · cases d with
      | none => exact .nil
      | some w =>
        refine .cons ?_ .nil
        rw [h₂.frame nodes.length (by omega) (by rw [h₁.length]; exact Nat.lt_succ_self _)]
        exact h₁.child w rfl
    · cases d' with
      | none => exact .nil
      | some w => exact .cons (h₂.child w rfl) .nil
  · rw [List.mem_cons, not_or] at hmem
    refine ⟨hframe i hi hmem.1, ?_⟩
    rw [hqueue, List.mem_append]
    rintro (h | h)
    · exact hmem.2 h
    · have := hnew i h
      omega

/-- **What the loop hangs under the nodes of its queue has grown from the entries**, and
no other node changes. -/
theorem buildLoop_points {nodes : Nodes α} {queue : List ℕ} {vs : List α} (ds : List (Option α))
    (hnodup : queue.Nodup) (hbare : Bare nodes queue vs) :
    (∀ i < nodes.length, i ∉ queue → (buildLoop nodes queue ds)[i]? = nodes[i]?) ∧
      List.Forall₂ (fun i t => Points (buildLoop nodes queue ds) (some i) t) queue
        (grow vs ds) := by
  induction hn : ds.length using Nat.strong_induction_on generalizing nodes queue vs ds with
  | _ n ih =>
    cases queue with
    | nil =>
      cases hbare
      rw [buildLoop, grow]
      exact ⟨fun _ _ _ => rfl, .nil⟩
    | cons parent queue =>
      cases ds with
      | nil =>
        rw [buildLoop, grow_nil_right]
        · refine ⟨fun _ _ _ => rfl, ?_⟩
          rw [List.forall₂_map_right_iff]
          exact hbare.imp fun i v hi => .node hi .nil .nil
        · intro h
          cases h
      | cons d ds =>
        cases vs with
        | nil => cases hbare
        | cons v vs =>
          obtain ⟨hparent, hbare⟩ := List.forall₂_cons.mp hbare
          obtain ⟨l, r, hl, hr, hqueue, hnodup', hnode, hbare', hlength, hframe⟩ :=
            addChildren_spec hnodup hparent hbare d ds.head?.join
          rw [buildLoop_cons, grow_cons_cons]
          simp only
          set s := addChild setRight parent ds.head?.join
            (addChild setLeft parent d (nodes, queue)) with hs
          have hlt : ds.tail.length < n := by
            rw [← hn, List.length_tail, List.length_cons]
            omega
          obtain ⟨hkept, hpoints⟩ := ih ds.tail.length hlt ds.tail (List.nodup_cons.mp hnodup').2 hbare' rfl
          refine ⟨fun i hi hmem => ?_, ?_⟩
          · obtain ⟨hsame, hout⟩ := hframe i hi hmem
            rw [hkept i (by omega) hout, hsame]
          · have hlen : queue.length = vs.length := hbare.length_eq
            have hsplit : List.Forall₂ (fun i t => Points (buildLoop s.1 s.2 ds.tail) (some i) t)
                (queue ++ (l.toList ++ r.toList))
                (grow (vs ++ d.toList ++ ds.head?.join.toList) ds.tail) := by
              rw [← hqueue]
              exact hpoints
            have htake := List.forall₂_take queue.length hsplit
            have hdrop := List.forall₂_drop queue.length hsplit
            rw [List.take_left, hlen] at htake
            rw [List.drop_left, hlen] at hdrop
            obtain ⟨hleft, hright⟩ := points_children hl hr hdrop
            have hparent' : (buildLoop s.1 s.2 ds.tail)[parent]? = some ⟨some v, l, r⟩ := by
              rw [hkept parent (List.getElem?_eq_some_iff.mp hnode).1
                (List.nodup_cons.mp hnodup').1, hnode]
            exact .cons (.node hparent' hleft hright) htake

/-- The array of a root and what follows it builds the tree that grows from them. -/
theorem buildTree_cons (v : α) (data : List (Option α)) :
    ∃ t, grow [v] data = [t] ∧ buildTree (some v :: data) = t.map some := by
  obtain ⟨t, ht⟩ : ∃ t, grow [v] data = [t] := List.length_eq_one_iff.mp (length_grow [v] data)
  have hbare : Bare [newNode v] [0] [v] := .cons rfl .nil
  obtain ⟨-, hpoints⟩ := buildLoop_points data (List.nodup_singleton 0) hbare
  rw [ht] at hpoints
  obtain ⟨hroot, -⟩ := List.forall₂_cons.mp hpoints
  have hheight : t.height ≤ data.length + 1 :=
    height_le_of_mem_grow [v] data t (by rw [ht]; exact List.mem_singleton_self t)
  exact ⟨t, ht, toTree_of_points hroot hheight⟩

/-! ## What is serialized -/

theorem serializeLoop_map (queue : List (BinaryTree α)) :
    serializeLoop (queue.map fun t => t.map some) = entries queue := by
  induction queue using entries.induct with
  | case1 => rw [List.map_nil, serializeLoop, entries_nil]
  | case2 t queue ih =>
    rw [entries_cons, ← ih]
    cases t with
    | nil =>
      rw [children, List.append_nil, List.map_cons, map, serializeLoop]
      rfl
    | node v l r =>
      rw [children, List.map_cons, map, serializeLoop, List.map_append]
      rfl

/-- Only nils are cut off. -/
theorem trimNils_append (xs : List (Option α)) :
    ∃ k, xs = trimNils xs ++ List.replicate k none := by
  refine ⟨(xs.reverse.takeWhile Option.isNone).length, ?_⟩
  have hnils : xs.reverse.takeWhile Option.isNone =
      List.replicate (xs.reverse.takeWhile Option.isNone).length none := by
    refine List.eq_replicate_of_mem fun x hx => ?_
    exact Option.isNone_iff_eq_none.mp (List.mem_takeWhile_imp hx)
  apply List.reverse_injective
  rw [trimNils, List.reverse_append, List.reverse_reverse, List.reverse_replicate, ← hnils,
    List.takeWhile_append_dropWhile]

/-- All nils at the end are cut off. -/
theorem trimNils_append_replicate {xs : List (Option α)} (hlast : xs.getLast? ≠ some none)
    (k : ℕ) : trimNils (xs ++ List.replicate k none) = xs := by
  have hnils : (List.replicate k (none : Option α)).dropWhile Option.isNone = [] := by
    rw [List.dropWhile_eq_nil_iff]
    intro x hx
    rw [List.eq_of_mem_replicate hx]
    rfl
  rw [trimNils, List.reverse_append, List.reverse_replicate, List.dropWhile_append, hnils,
    List.isEmpty_nil, if_pos rfl]
  rw [List.getLast?_eq_head?_reverse] at hlast
  have hkept : xs.reverse.dropWhile Option.isNone = xs.reverse := by
    cases hrev : xs.reverse with
    | nil => rfl
    | cons x rest =>
      rw [hrev, List.head?_cons] at hlast
      cases x with
      | none => exact absurd rfl hlast
      | some v => rfl
  rw [hkept, List.reverse_reverse]

/-! ## The round trips -/

/-- No node of the tree has the value nil. -/
def NonNil : BinaryTree (Option α) → Prop
  | nil => True
  | node v l r => v ≠ none ∧ NonNil l ∧ NonNil r

theorem NonNil.exists_map {t : BinaryTree (Option α)} (h : NonNil t) :
    ∃ u : BinaryTree α, t = u.map some := by
  induction t with
  | nil => exact ⟨nil, rfl⟩
  | node v l r ihl ihr =>
    obtain ⟨hv, hl, hr⟩ := h
    obtain ⟨a, rfl⟩ := Option.ne_none_iff_exists'.mp hv
    obtain ⟨ul, rfl⟩ := ihl hl
    obtain ⟨ur, rfl⟩ := ihr hr
    exact ⟨node a ul ur, rfl⟩

/-- A level-order array as it should be: its root is not nil unless it is empty, it does
not end in nil, and every entry but the root belongs to a parent.  The entries at `2 k + 1`
and `2 k + 2` are for the children of the `k`-th entry that is not nil, which has to come
before them. -/
structure Canonical (xs : List (Option α)) : Prop where
  root : xs.head? ≠ some none
  last : xs.getLast? ≠ some none
  parent : ∀ i, 0 < i → i < xs.length → (i - 1) / 2 < (xs.take i).countP Option.isSome

theorem countP_toList (x : Option α) (xs : List (Option α)) :
    (x :: xs).countP Option.isSome = x.toList.length + xs.countP Option.isSome := by
  cases x with
  | none => simp
  | some v => simp [Nat.add_comm]

/-- Enough parents for every entry. -/
theorem fed_of_count {n : ℕ} {ds : List (Option α)}
    (h : ∀ i < ds.length, i / 2 < n + (ds.take i).countP Option.isSome) : Fed n ds := by
  induction hn : ds.length using Nat.strong_induction_on generalizing n ds with
  | _ m ih =>
    cases ds with
    | nil => cases n <;> exact trivial
    | cons x ds =>
      obtain ⟨n, rfl⟩ : ∃ k, n = k + 1 := by
        have hfirst := h 0 (Nat.succ_pos _)
        exact ⟨n - 1, by simp at hfirst; omega⟩
      cases ds with
      | nil => cases x <;> cases n <;> exact trivial
      | cons y ds =>
        show Fed (n + x.toList.length + y.toList.length) ds
        refine ih ds.length (by rw [← hn]; simp) (fun i hi => ?_) rfl
        have hnext := h (i + 2) (by rw [List.length_cons, List.length_cons]; omega)
        rw [List.take_succ_cons, List.take_succ_cons, countP_toList, countP_toList] at hnext
        omega

theorem Canonical.fed {v : α} {data : List (Option α)} (h : Canonical (some v :: data)) :
    Fed 1 data := by
  refine fed_of_count fun i hi => ?_
  have hnext := h.parent (i + 1) (Nat.succ_pos i) (Nat.succ_lt_succ hi)
  rw [List.take_succ_cons, countP_toList, Nat.add_sub_cancel] at hnext
  exact hnext

theorem buildTree_serializeTree {t : BinaryTree (Option α)} (h : NonNil t) :
    buildTree (serializeTree t) = t := by
  obtain ⟨u, rfl⟩ := h.exists_map
  cases u with
  | nil => rfl
  | node v l r =>
    have hloop : serializeLoop [(node v l r).map some] = entries [node v l r] :=
      serializeLoop_map [node v l r]
    obtain ⟨k, hk⟩ := trimNils_append (entries [node v l r])
    have hserialize : serializeTree ((node v l r).map some) = trimNils (entries [node v l r]) := by
      rw [← hloop]
      rfl
    rw [hserialize]
    rw [entries_cons, List.nil_append] at hk ⊢
    -- the root is not cut off
    cases htrim : trimNils (entry (node v l r) :: entries (children (node v l r))) with
    | nil =>
      rw [htrim, List.nil_append] at hk
      cases k with
      | zero => exact nomatch hk
      | succ k => exact nomatch (List.cons.inj hk).1
    | cons x ds =>
      rw [htrim, List.cons_append] at hk
      obtain ⟨hx, hds⟩ := List.cons.inj hk
      subst hx
      have hgrow : grow [v] ds = [node v l r] := by
        have hne : ∀ t ∈ [node v l r], t ≠ nil := by
          intro t ht
          rw [List.mem_singleton.mp ht]
          exact fun h => nomatch h
        refine grow_entries hne (k := k) ?_
        rw [List.flatMap_singleton, hds]
      obtain ⟨t, ht, hbuild⟩ := buildTree_cons v ds
      rw [hgrow] at ht
      obtain rfl := (List.cons.inj ht).1
      exact hbuild

theorem serializeTree_buildTree {xs : List (Option α)} (h : Canonical xs) :
    serializeTree (buildTree xs) = xs := by
  cases xs with
  | nil => rfl
  | cons x data =>
    cases x with
    | none => exact absurd rfl h.root
    | some v =>
      obtain ⟨t, ht, hbuild⟩ := buildTree_cons v data
      have hentry := map_entry_grow [v] data
      rw [ht] at hentry
      obtain ⟨k, hk⟩ := entries_grow (q := [v]) h.fed
      rw [ht, List.flatMap_singleton] at hk
      have hserialize : serializeTree (t.map some) = trimNils (entries [t]) := by
        rw [← serializeLoop_map]
        cases t with
        | nil => exact nomatch (List.cons.inj hentry).1
        | node w l r => rfl
      rw [hbuild, hserialize, entries_cons, List.nil_append, (List.cons.inj hentry).1, hk,
        ← List.cons_append]
      exact trimNils_append_replicate h.last k

/-- What is cut off is at the end. -/
theorem getLast?_trimNils (xs : List (Option α)) : (trimNils xs).getLast? ≠ some none := by
  unfold trimNils
  rw [List.getLast?_reverse]
  cases hdrop : xs.reverse.dropWhile Option.isNone with
  | nil => simp
  | cons x ys =>
    have hx : x.isNone = false := by
      have h := List.head?_dropWhile_not Option.isNone xs.reverse
      rw [hdrop] at h
      simpa using h
    intro h
    obtain rfl := Option.some.inj h
    cases hx

/-- **A serialized tree is canonical.** -/
theorem canonical_serializeTree {t : BinaryTree (Option α)} (h : NonNil t) :
    Canonical (serializeTree t) := by
  obtain ⟨u, rfl⟩ := h.exists_map
  cases u with
  | nil => exact ⟨by simp [serializeTree, map], by simp [serializeTree, map], fun i _ h => absurd h (by simp [serializeTree, map])⟩
  | node v l r =>
    have hserialize : serializeTree ((node v l r).map some) = trimNils (entries [node v l r]) := by
      rw [← serializeLoop_map]
      rfl
    obtain ⟨k, hk⟩ := trimNils_append (entries [node v l r])
    rw [hserialize]
    refine ⟨?_, getLast?_trimNils _, fun i hpos hi => ?_⟩
    · intro hroot
      cases htrim : trimNils (entries [node v l r]) with
      | nil =>
        rw [htrim] at hroot
        cases hroot
      | cons x xs =>
        rw [htrim] at hroot hk
        rw [entries_cons, List.cons_append] at hk
        rw [List.head?_cons, ← (List.cons.inj hk).1] at hroot
        cases Option.some.inj hroot
    · have hlt : i < (entries [node v l r]).length := by
        rw [hk, List.length_append]
        omega
      have hparent := lt_of_lt_length_entries hlt
      have htake : (entries [node v l r]).take i = (trimNils (entries [node v l r])).take i := by
        conv_lhs => rw [hk]
        exact List.take_append_of_le_length hi.le
      rw [htake, List.length_singleton] at hparent
      omega

/-- **Building and serializing are inverse to each other**, on trees without nil values
and on canonical arrays. -/
theorem tree_codec :
    (∀ t : BinaryTree (Option α), NonNil t → buildTree (serializeTree t) = t) ∧
      ∀ xs : List (Option α), Canonical xs → serializeTree (buildTree xs) = xs :=
  ⟨fun _ => buildTree_serializeTree, fun _ => serializeTree_buildTree⟩

/-- A root whose left child is missing, with a grandchild on the left. -/
theorem tree_codec_gap :
    buildTree (serializeTree (node (some 1) nil (node (some 2) (node (some 3) nil nil) nil))) =
        node (some 1) nil (node (some 2) (node (some 3) nil nil) nil) ∧
      serializeTree (buildTree [some 1, none, some 2, some 3]) = [some 1, none, some 2, some 3] := by
  refine ⟨tree_codec.1 _ (by simp [NonNil]), tree_codec.2 _ ⟨by decide, by decide, ?_⟩⟩
  intro i hi hlt
  have hlt : i < 4 := hlt
  interval_cases i <;> decide

/-- What is serialized are values of the tree. -/
theorem mem_serializeLoop {P : Option α → Prop} {queue : List (BinaryTree (Option α))}
    (h : ∀ t ∈ queue, All P t) : ∀ e ∈ serializeLoop queue, e = none ∨ P e := by
  induction queue using serializeLoop.induct with
  | case1 =>
    intro e he
    rw [serializeLoop] at he
    exact absurd he List.not_mem_nil
  | case2 queue ih =>
    rw [serializeLoop]
    exact List.forall_mem_cons.mpr ⟨Or.inl rfl, ih (List.forall_mem_cons.mp h).2⟩
  | case3 v l r queue ih =>
    obtain ⟨⟨hv, hl, hr⟩, hqueue⟩ := List.forall_mem_cons.mp h
    rw [serializeLoop]
    refine List.forall_mem_cons.mpr ⟨Or.inr hv, ih fun t ht => ?_⟩
    rcases List.mem_append.mp ht with ht | ht
    · exact hqueue t ht
    · rcases List.mem_pair.mp ht with rfl | rfl
      · exact hl
      · exact hr

theorem mem_serializeTree {P : Option α → Prop} {t : BinaryTree (Option α)} (h : All P t) :
    ∀ e ∈ serializeTree t, e = none ∨ P e := by
  intro e he
  cases t with
  | nil => exact absurd he List.not_mem_nil
  | node v l r =>
    have hmem : e ∈ serializeLoop [node v l r] := by
      have hdrop := List.mem_reverse.mp he
      exact List.mem_reverse.mp (List.dropWhile_subset Option.isNone hdrop)
    refine mem_serializeLoop (P := P) (fun t ht => ?_) e hmem
    rw [List.mem_singleton.mp ht]
    exact h

/-! ## Other values -/

section

variable {β : Type*} (f : α → β)

theorem trimNils_map (xs : List (Option α)) :
    trimNils (xs.map (Option.map f)) = (trimNils xs).map (Option.map f) := by
  have hnone : Option.isNone ∘ Option.map f = Option.isNone := by
    funext x
    exact Option.isNone_map
  unfold trimNils
  rw [← List.map_reverse, List.dropWhile_map, hnone, List.map_reverse]

theorem serializeLoop_map_values (queue : List (BinaryTree (Option α))) :
    serializeLoop (queue.map fun t => t.map (Option.map f)) =
      (serializeLoop queue).map (Option.map f) := by
  induction queue using serializeLoop.induct with
  | case1 => rw [List.map_nil, serializeLoop, serializeLoop, List.map_nil]
  | case2 queue ih =>
    rw [List.map_cons, map, serializeLoop, serializeLoop, ih, List.map_cons]
    rfl
  | case3 v l r queue ih =>
    rw [List.map_append] at ih
    rw [List.map_cons, map, serializeLoop, serializeLoop, List.map_cons, ← ih]
    rfl

theorem nonNil_map_iff (t : BinaryTree (Option α)) : NonNil (t.map (Option.map f)) ↔ NonNil t := by
  induction t with
  | nil => exact Iff.rfl
  | node v l r ihl ihr =>
    rw [map, NonNil, NonNil, ihl, ihr, ne_eq, Option.map_eq_none_iff]

/-- The values do not matter to how a tree is serialized. -/
theorem serializeTree_map (t : BinaryTree (Option α)) :
    serializeTree (t.map (Option.map f)) = (serializeTree t).map (Option.map f) := by
  cases t with
  | nil => rfl
  | node v l r =>
    show trimNils (serializeLoop [(node v l r).map (Option.map f)]) = _
    have hloop := serializeLoop_map_values f [node v l r]
    rw [List.map_singleton] at hloop
    rw [hloop, trimNils_map]
    rfl

/-- Nor do they matter to what is canonical. -/
theorem canonical_map_iff (xs : List (Option α)) :
    Canonical (xs.map (Option.map f)) ↔ Canonical xs := by
  have hsome : ∀ i, ((xs.map (Option.map f)).take i).countP Option.isSome =
      (xs.take i).countP Option.isSome := by
    intro i
    rw [← List.map_take, List.countP_map]
    congr 1
    funext x
    exact Option.isSome_map
  have hnone : ∀ o : Option (Option α), o.map (Option.map f) ≠ some none ↔ o ≠ some none := by
    rintro (_ | _ | x)
    · simp
    · simp
    · simp
  constructor
  · intro h
    refine ⟨?_, ?_, fun i hpos hi => ?_⟩
    · exact (hnone _).mp (by rw [← List.head?_map]; exact h.root)
    · exact (hnone _).mp (by rw [← List.getLast?_map]; exact h.last)
    · rw [← hsome]
      exact h.parent i hpos (by rwa [List.length_map])
  · intro h
    refine ⟨?_, ?_, fun i hpos hi => ?_⟩
    · rw [List.head?_map]
      exact (hnone _).mpr h.root
    · rw [List.getLast?_map]
      exact (hnone _).mpr h.last
    · rw [hsome]
      exact h.parent i hpos (by rwa [List.length_map] at hi)

end

end Judge
