/-
# Deep copies of graphs

Where a problem asks for a deep copy of a graph, the wrappers of Python and JavaScript
submissions compare the returned graph with the one they have passed on
(`pkg/wrappers/python_single_wrapper.tpl` and `js_single_wrapper.tpl`).  They walk through
both, keep one node for each value, and compare the nodes that they keep.

The node objects of both graphs lie in one heap.  A value is an integer or some other value;
two values are one when the language finds them equal.

* `verifyDeepCopy_eq_ok` : which graphs pass.
* `deep_copy_sound_iff` : a returned graph that passes shares no node with the original,
  unless a shared node hides behind another node of its value.
-/
import JudgePlatform.Judge.GraphCodec

namespace Judge

open Traversal

/-! ## The check -/

/-- The errors that are thrown; nodes are counted from 1. -/
inductive CopyError (V : Type) where
  | sizeMismatch (orig ret : ℕ)
  | sameObject (idx : ℕ)
  | valueMismatch (idx : ℕ) (orig ret : V)
  /-- the value of a node that is missing, read by Python as `None.val` -/
  | noValue (idx : ℕ)
  deriving DecidableEq

section Check

variable {ν O : Type} [Fintype ν] [DecidableEq ν] [DecidableEq O]

/-- The value of the node numbered `i`. -/
def nodeValue (O : Type) (i : ℕ) : ℤ ⊕ O := .inl i

/-- `node_list_by_val`: the nodes kept for the values 1, 2, … -/
def nodeListByVal (heap : Heap ν (ℤ ⊕ O)) : Option ν → List (Option ν)
  | none => []
  | some root =>
    let map := heap.nodeMap root
    (List.range' 1 map.length).map fun i => heap.get map (nodeValue O i)

/-- The loop over the two lists. -/
def compareNodes (heap : Heap ν (ℤ ⊕ O)) :
    ℕ → List (Option ν × Option ν) → Except (CopyError (ℤ ⊕ O)) Unit
  | _, [] => .ok ()
  | idx, (o, r) :: pairs =>
    if o = r then .error (.sameObject idx)
    else
      match o, r with
      | some o, some r =>
        if heap.val o ≠ heap.val r then .error (.valueMismatch idx (heap.val o) (heap.val r))
        else compareNodes heap (idx + 1) pairs
      | _, _ => .error (.noValue idx)

/-- `verify_deep_copy`. -/
def verifyDeepCopy (heap : Heap ν (ℤ ⊕ O)) (origRoot retRoot : Option ν) :
    Except (CopyError (ℤ ⊕ O)) Unit :=
  let origNodes := nodeListByVal heap origRoot
  let retNodes := nodeListByVal heap retRoot
  if origNodes.length ≠ retNodes.length then
    .error (.sizeMismatch origNodes.length retNodes.length)
  else compareNodes heap 1 (origNodes.zip retNodes)

end Check

/-! ## Original graphs -/

/-- The node objects that `build_graph` has made from an adjacency list, in a heap that may
hold others. -/
structure Original {ν O : Type} (heap : Heap ν (ℤ ⊕ O)) where
  adj : List (List ℤ)
  graph : Graph ℤ
  built : PythonWrapper.buildGraph adj = some (some graph)
  node : Fin graph.size ↪ ν
  val_eq : ∀ i, heap.val (node i) = .inl (graph.heap.val i)
  neighbors_eq : ∀ i, heap.neighbors (node i) = (graph.heap.neighbors i).map node

/-- The nodes of a graph are numbered from 1. -/
theorem val_of_buildGraph {α V : Type} {index : (n : ℕ) → α → Option (Fin n)} {number : ℕ → V}
    {rows : List (List α)} {g : Graph V} (h : buildGraph index number rows = some (some g))
    (i : Fin g.size) : g.heap.val i = number (i + 1) := by
  cases rows with
  | nil => cases h
  | cons row rows =>
    rw [buildGraph, Option.map_eq_some_iff] at h
    obtain ⟨heap, hheap, hg⟩ := h
    obtain rfl := Option.some.inj hg
    rw [connect, Option.map_eq_some_iff] at hheap
    obtain ⟨edges, -, rfl⟩ := hheap
    rfl

namespace Original

variable {ν O : Type} {heap : Heap ν (ℤ ⊕ O)} (original : Original heap)

/-- `ORIGINAL_NODES[0]`. -/
def root : ν := original.node original.graph.root

theorem val_node (i : Fin original.graph.size) :
    heap.val (original.node i) = nodeValue O (i + 1) := by
  rw [original.val_eq, val_of_buildGraph original.built]
  rfl

/-- Two original nodes of one value are one object. -/
theorem eq_of_val {v w : ν} (hv : v ∈ Set.range original.node) (hw : w ∈ Set.range original.node)
    (h : heap.val v = heap.val w) : v = w := by
  obtain ⟨i, rfl⟩ := hv
  obtain ⟨j, rfl⟩ := hw
  rw [original.val_node, original.val_node, nodeValue, nodeValue, Sum.inl.injEq] at h
  have hij : i = j := by
    apply Fin.ext
    omega
  rw [hij]

/-- From an original node only original nodes can be reached. -/
theorem mem_of_reachable {v w : ν} (hv : v ∈ Set.range original.node)
    (h : Reachable heap.neighbors v w) : w ∈ Set.range original.node := by
  induction h with
  | refl => exact hv
  | tail _ hw ih =>
    obtain ⟨i, rfl⟩ := ih
    rw [original.neighbors_eq] at hw
    obtain ⟨j, -, rfl⟩ := List.mem_map.mp hw
    exact ⟨j, rfl⟩

end Original

/-! ## What passes -/

theorem Heap.get_eq_some_iff {ν V : Type} [DecidableEq V] {heap : Heap ν V} {map : List ν}
    (hmap : (map.map heap.val).Nodup) {v : V} {node : ν} : heap.get map v = some node ↔ node ∈ map ∧ heap.val node = v := by
  constructor
  · intro h
    exact ⟨List.mem_of_find?_eq_some h, by simpa using List.find?_some h⟩
  · rintro ⟨hmem, hval⟩
    refine Heap.get_eq_some hmem hval fun w hw hwv => ?_
    exact List.inj_on_of_nodup_map hmap hw hmem (hwv.trans hval.symm)

section Passing

variable {ν O : Type} [DecidableEq ν] [DecidableEq O] {heap : Heap ν (ℤ ⊕ O)}

theorem compareNodes_eq_ok {pairs : List (Option ν × Option ν)} {idx : ℕ} :
    compareNodes heap idx pairs = .ok () ↔
      ∀ p ∈ pairs, ∃ o r, p = (some o, some r) ∧ o ≠ r ∧ heap.val o = heap.val r := by
  induction pairs generalizing idx with
  | nil => simp [compareNodes]
  | cons p pairs ih =>
    obtain ⟨o, r⟩ := p
    rw [compareNodes.eq_def, List.forall_mem_cons]
    dsimp only
    by_cases hsame : o = r
    · rw [if_pos hsame]
      constructor
      · intro h
        cases h
      · rintro ⟨⟨o', r', hp, hne, -⟩, -⟩
        obtain ⟨rfl, rfl⟩ := Prod.mk.inj hp
        exact absurd (Option.some.inj hsame) hne
    · rw [if_neg hsame]
      rcases o with _ | o
      · simp
      · rcases r with _ | r
        · simp
        · dsimp only
          by_cases hval : heap.val o = heap.val r
          · have hne : o ≠ r := fun h => hsame (congrArg some h)
            rw [if_neg (not_not.mpr hval), ih]
            simp [hval, hne]
          · rw [if_pos hval]
            simp [hval]

variable [Fintype ν]

/-- No two nodes that are kept have one value. -/
theorem Heap.nodup_nodeMap (heap : Heap ν (ℤ ⊕ O)) (root : ν) :
    ((heap.nodeMap root).map heap.val).Nodup := nodup_map_walkFrom

theorem verifyDeepCopy_eq_ok {orig ret : ν} :
    verifyDeepCopy heap (some orig) (some ret) = .ok () ↔
      (heap.nodeMap orig).length = (heap.nodeMap ret).length ∧
        ∀ i, 1 ≤ i → i ≤ (heap.nodeMap ret).length →
          ∃ o ∈ heap.nodeMap orig, ∃ r ∈ heap.nodeMap ret,
            heap.val o = nodeValue O i ∧ heap.val r = nodeValue O i ∧ o ≠ r := by
  have hlength : ∀ root, (nodeListByVal heap (some root)).length = (heap.nodeMap root).length := by
    intro root
    rw [nodeListByVal, List.length_map, List.length_range']
  unfold verifyDeepCopy
  simp only [hlength]
  by_cases hsize : (heap.nodeMap orig).length = (heap.nodeMap ret).length
  · rw [if_neg (not_not.mpr hsize), compareNodes_eq_ok, nodeListByVal, nodeListByVal, hsize,
      List.zip_map']
    simp only [List.forall_mem_map, List.mem_range'_1, true_and, Prod.mk.injEq]
    refine forall_congr' fun i => ?_
    constructor
    · intro h hlow hhigh
      obtain ⟨o, r, ⟨ho, hr⟩, hne, -⟩ := h ⟨hlow, by omega⟩
      rw [Heap.get_eq_some_iff (heap.nodup_nodeMap orig)] at ho
      rw [Heap.get_eq_some_iff (heap.nodup_nodeMap ret)] at hr
      exact ⟨o, ho.1, r, hr.1, ho.2, hr.2, hne⟩
    · intro h hi
      obtain ⟨o, ho, r, hr, hoval, hrval, hne⟩ := h hi.1 (by omega)
      refine ⟨o, r, ⟨?_, ?_⟩, hne, hoval.trans hrval.symm⟩
      · exact (Heap.get_eq_some_iff (heap.nodup_nodeMap orig)).mpr ⟨ho, hoval⟩
      · exact (Heap.get_eq_some_iff (heap.nodup_nodeMap ret)).mpr ⟨hr, hrval⟩
  · rw [if_pos hsize]
    constructor
    · intro h
      cases h
    · rintro ⟨h, -⟩
      exact absurd h hsize

/-! ## Soundness -/

/-- A node that can be reached, but is not kept: another node of its value is. -/
def Hidden (heap : Heap ν (ℤ ⊕ O)) (ret v : ν) : Prop :=
  Reachable heap.neighbors ret v ∧ v ∉ heap.nodeMap ret

/-- What is kept of the returned graph are new nodes, one for each node kept of the original,
and on both sides their values are 1, 2, … -/
structure LooksCopied (original : Original heap) (ret : ν) : Prop where
  size_eq : (heap.nodeMap original.root).length = (heap.nodeMap ret).length
  orig_values : ∀ i, 1 ≤ i → i ≤ (heap.nodeMap ret).length →
    ∃ o ∈ heap.nodeMap original.root, heap.val o = nodeValue O i
  ret_values : ∀ i, 1 ≤ i → i ≤ (heap.nodeMap ret).length →
    ∃ r ∈ heap.nodeMap ret, heap.val r = nodeValue O i
  apart : ∀ v ∈ heap.nodeMap ret, v ∉ Set.range original.node

/-- If the check passes, no original node can be reached from the returned one. -/
def CheckSound (original : Original heap) (ret : ν) : Prop :=
  verifyDeepCopy heap (some original.root) (some ret) = .ok () →
    ∀ v, Reachable heap.neighbors ret v → v ∉ Set.range original.node

/-- When there is a kept node for each value from 1 to the number of kept nodes, these are all
values. -/
theorem exists_number {ret v : ν} (h : ∀ i, 1 ≤ i → i ≤ (heap.nodeMap ret).length →
    ∃ r ∈ heap.nodeMap ret, heap.val r = nodeValue O i) (hv : v ∈ heap.nodeMap ret) :
    ∃ i, 1 ≤ i ∧ i ≤ (heap.nodeMap ret).length ∧ heap.val v = nodeValue O i := by
  have hnodup : ((List.range' 1 (heap.nodeMap ret).length).map (nodeValue O)).Nodup := by
    refine List.Nodup.map ?_ List.nodup_range'
    intro i j hij
    rw [nodeValue, nodeValue, Sum.inl.injEq] at hij
    omega
  have hsubset : (List.range' 1 (heap.nodeMap ret).length).map (nodeValue O) ⊆
      (heap.nodeMap ret).map heap.val := by
    intro x hx
    obtain ⟨i, hi, rfl⟩ := List.mem_map.mp hx
    rw [List.mem_range'_1] at hi
    obtain ⟨r, hr, hval⟩ := h i hi.1 (by omega)
    exact List.mem_map.mpr ⟨r, hr, hval⟩
  have hperm := (List.subperm_of_subset hnodup hsubset).perm_of_length_le
    (by rw [List.length_map, List.length_map, List.length_range'])
  obtain ⟨i, hi, hval⟩ := List.mem_map.mp (hperm.mem_iff.mpr (List.mem_map_of_mem hv))
  rw [List.mem_range'_1] at hi
  exact ⟨i, hi.1, by omega, hval.symm⟩

/-- **What passes** looks like a copy. -/
theorem verifyDeepCopy_eq_ok_iff (original : Original heap) (ret : ν) :
    verifyDeepCopy heap (some original.root) (some ret) = .ok () ↔ LooksCopied original ret := by
  have horig : ∀ o ∈ heap.nodeMap original.root, o ∈ Set.range original.node := fun o ho =>
    original.mem_of_reachable ⟨_, rfl⟩ (reachable_of_mem_walkFrom ho)
  rw [verifyDeepCopy_eq_ok]
  constructor
  · rintro ⟨hsize, hnodes⟩
    have hret : ∀ i, 1 ≤ i → i ≤ (heap.nodeMap ret).length →
        ∃ r ∈ heap.nodeMap ret, heap.val r = nodeValue O i := by
      intro i hlow hhigh
      obtain ⟨-, -, r, hr, -, hval, -⟩ := hnodes i hlow hhigh
      exact ⟨r, hr, hval⟩
    refine ⟨hsize, ?_, hret, ?_⟩
    · intro i hlow hhigh
      obtain ⟨o, ho, -, -, hval, -⟩ := hnodes i hlow hhigh
      exact ⟨o, ho, hval⟩
    · intro v hv hmem
      obtain ⟨i, hlow, hhigh, hval⟩ := exists_number hret hv
      obtain ⟨o, ho, r, hr, hoval, hrval, hne⟩ := hnodes i hlow hhigh
      -- both the node kept here and the one kept of the original are the original node `i`
      have hrv : r = v :=
        List.inj_on_of_nodup_map (heap.nodup_nodeMap ret) hr hv (hrval.trans hval.symm)
      exact hne ((original.eq_of_val (horig o ho) hmem (hoval.trans hval.symm)).trans hrv.symm)
  · intro h
    refine ⟨h.size_eq, fun i hlow hhigh => ?_⟩
    obtain ⟨o, ho, hoval⟩ := h.orig_values i hlow hhigh
    obtain ⟨r, hr, hrval⟩ := h.ret_values i hlow hhigh
    refine ⟨o, ho, r, hr, hoval, hrval, ?_⟩
    rintro rfl
    exact h.apart o hr (horig o ho)

/-- Of a graph that passes, only hidden nodes can be original ones. -/
theorem LooksCopied.hidden {original : Original heap} {ret v : ν} (h : LooksCopied original ret)
    (hv : v ∈ Set.range original.node) (hreach : Reachable heap.neighbors ret v) :
    Hidden heap ret v :=
  ⟨hreach, fun hkept => h.apart v hkept hv⟩

/-- **The check is sound** for a returned graph unless this looks like a copy and an original
node hides behind a node that is kept. -/
theorem deep_copy_sound_iff (original : Original heap) (ret : ν) :
    CheckSound original ret ↔
      ¬(LooksCopied original ret ∧ ∃ v ∈ Set.range original.node, Hidden heap ret v) := by
  rw [CheckSound, verifyDeepCopy_eq_ok_iff]
  constructor
  · rintro h ⟨hcopied, v, hv, hhidden⟩
    exact h hcopied v hhidden.1 hv
  · intro h hcopied v hreach hv
    exact h ⟨hcopied, v, hv, hcopied.hidden hv hreach⟩

/-- The check is sound where the nodes of the returned graph have different values. -/
theorem sound_of_distinct {original : Original heap} {ret : ν}
    (h : ∀ u w, Reachable heap.neighbors ret u → Reachable heap.neighbors ret w →
      heap.val u = heap.val w → u = w) : CheckSound original ret := by
  intro hok v hreach hv
  have hcopied := (verifyDeepCopy_eq_ok_iff original ret).mp hok
  exact (hcopied.hidden hv hreach).2 ((mem_walkFrom_byKey h).mpr hreach)

end Passing

/-! ## A node that stays behind -/

/-- Two nodes that are neighbours, and a copy of both whose second node leads back to the
first one of the original. -/
def halfCopied : Heap (Fin 4) (ℤ ⊕ Empty) where
  val := ![.inl 1, .inl 2, .inl 1, .inl 2]
  neighbors := ![[1], [0], [3], [0]]

/-- The original: nodes 0 and 1. -/
def halfOriginal : Original halfCopied where
  adj := [[2], [1]]
  graph := ⟨2, ⟨fun i => i + 1, fun i => [[1], [0]].getD i []⟩, 0⟩
  built := rfl
  node := Fin.castLEEmb (by decide)
  val_eq := by decide
  neighbors_eq := by decide

theorem half_copied_passes :
    verifyDeepCopy halfCopied (some halfOriginal.root) (some 2) = .ok () ∧
      ¬CheckSound halfOriginal 2 := by
  have hok : verifyDeepCopy halfCopied (some halfOriginal.root) (some 2) = .ok () := by
    decide +kernel
  refine ⟨hok, fun hsound => ?_⟩
  have hreach : Reachable halfCopied.neighbors 2 0 :=
    (Relation.ReflTransGen.single (by decide : (3 : Fin 4) ∈ halfCopied.neighbors 2)).tail
      (by decide : (0 : Fin 4) ∈ halfCopied.neighbors 3)
  exact hsound hok 0 hreach ⟨halfOriginal.graph.root, rfl⟩

end Judge
