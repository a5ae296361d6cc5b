/-
# Graphs that the C wrapper prints

The wrapper of C submissions walks through a graph with two arrays of 1000 pointers, knows a
node by its address, and writes the rows up to the largest value it has come across
(`pkg/wrappers/c_wrapper.tpl`).  When the arrays are full it takes no further nodes, where
the wrapper of Rust submissions goes on (`pkg/wrappers/rust_wrapper.tpl`).

* `CWrapper.graphLoop_eq` : the indexes stay in range, and the nodes visited are the first
  1000 of the walk.
* `graph_outputs_agree_iff` : the two wrappers print the same list if the nodes left out have
  no neighbours and are not the last one.
-/
import JudgePlatform.Judge.GraphCodec
import JudgePlatform.Judge.TreeOutputs

namespace Judge

open Traversal

/-! ## The C wrapper -/

namespace CWrapper

/-- The pointers in `queue[1000]` and in `visited[1000]`. -/
def capacity : ℕ := 1000

/-- The variables of `graph_to_json`; `queue` is the part of the array from `head` to `tail`,
`visited` the part below `num_visited`. -/
structure GraphWalk (ν : Type) where
  queue : List ν
  tail : ℕ
  visited : List ν
  maxVal : Int32
  /-- both arrays are filled in step -/
  tail_eq : tail = visited.length

section Walk

variable {ν : Type} {heap : Heap ν Int32}

/-- The node at the front of the queue; its value may be the largest one so far. -/
def dequeue (heap : Heap ν Int32) (s : GraphWalk ν) (curr : ν) (queue : List ν) : GraphWalk ν :=
  { s with
    queue := queue
    maxVal := if s.maxVal < heap.val curr then heap.val curr else s.maxVal }

/-- A pointer put at the end of both arrays. -/
def GraphWalk.push (s : GraphWalk ν) (node : ν) : GraphWalk ν where
  queue := s.queue ++ [node]
  tail := s.tail + 1
  visited := s.visited ++ [node]
  maxVal := s.maxVal
  tail_eq := by rw [s.tail_eq, List.length_append, List.length_singleton]

/-- What holds of the arrays between two rounds of the loop. -/
structure Walking (heap : Heap ν Int32) (s : GraphWalk ν) : Prop where
  queued : ∀ v ∈ s.queue, v ∈ s.visited
  bounded : ∀ v ∈ s.visited, v ∈ s.queue ∨ (heap.val v).toInt ≤ s.maxVal.toInt
  attained : ∃ v ∈ s.visited, heap.val v = s.maxVal

/-- **One round** keeps it: the node taken off the queue is accounted for. -/
theorem Walking.step {s s' : GraphWalk ν} {curr : ν} {queue fresh : List ν}
    (hw : Walking heap s) (h : s.queue = curr :: queue)
    (hmax : s'.maxVal = (dequeue heap s curr queue).maxVal) (hqueue : s'.queue = queue ++ fresh)
    (hvisited : s'.visited = s.visited ++ fresh) : Walking heap s' := by
  have hle : s.maxVal.toInt ≤ s'.maxVal.toInt ∧ (heap.val curr).toInt ≤ s'.maxVal.toInt := by
    rw [hmax, dequeue]
    split_ifs with hlt
    · rw [Int32.lt_iff_toInt_lt] at hlt
      exact ⟨hlt.le, le_refl _⟩
    · rw [Int32.lt_iff_toInt_lt, not_lt] at hlt
      exact ⟨le_refl _, hlt⟩
  constructor
  · intro v hv
    rw [hqueue] at hv
    rw [hvisited]
    rcases List.mem_append.mp hv with hv | hv
    · exact List.mem_append_left _ (hw.queued v (h ▸ List.mem_cons_of_mem _ hv))
    · exact List.mem_append_right _ hv
  · intro v hv
    rw [hvisited] at hv
    rw [hqueue]
    rcases List.mem_append.mp hv with hv | hv
    · rcases hw.bounded v hv with hv | hv
      · rw [h] at hv
        rcases List.mem_cons.mp hv with rfl | hv
        · exact Or.inr hle.2
        · exact Or.inl (List.mem_append_left _ hv)
      · exact Or.inr (le_trans hv hle.1)
    · exact Or.inl (List.mem_append_right _ hv)
  · rw [hmax, hvisited, dequeue]
    split_ifs with hlt
    · exact ⟨curr, List.mem_append_left _ (hw.queued curr (h ▸ List.mem_cons_self)), rfl⟩
    · obtain ⟨v, hv, hval⟩ := hw.attained
      exact ⟨v, List.mem_append_left _ hv, hval⟩

/-! ## The loop -/

variable [DecidableEq ν]

/-- One neighbour.  There is no result when its pointer would be written behind the queue. -/
def visitNeighbor (s : GraphWalk ν) (neighbor : ν) : Option (GraphWalk ν) :=
  if neighbor ∉ s.visited ∧ s.visited.length < capacity then
    if s.tail < capacity then some (s.push neighbor) else none
  else some s

/-- Which neighbours are put into the arrays. -/
def visitRule (ν : Type) [DecidableEq ν] : Rule ν := (byKey (id : ν → ν)).capped capacity

theorem visitRule_takes {found : List ν} {w : ν} :
    (visitRule ν).takes found w = true ↔ w ∉ found ∧ found.length < capacity := by
  simp [visitRule, Rule.capped, byKey]

theorem visitNeighbor_eq (s : GraphWalk ν) (w : ν) :
    visitNeighbor s w = some (if (visitRule ν).takes s.visited w then s.push w else s) := by
  have htail := s.tail_eq
  unfold visitNeighbor
  by_cases h : w ∉ s.visited ∧ s.visited.length < capacity
  · rw [if_pos h, if_pos (htail ▸ h.2), if_pos (visitRule_takes.mpr h)]
  · rw [if_neg h, if_neg fun ht => h (visitRule_takes.mp ht)]

/-- **All neighbours of a node**: none is written behind the arrays. -/
theorem foldlM_visitNeighbor (s : GraphWalk ν) (ws : List ν) :
    ∃ s', ws.foldlM visitNeighbor s = some s' ∧ s'.maxVal = s.maxVal ∧
      s'.queue = s.queue ++ (visitRule ν).fresh s.visited ws ∧
      s'.visited = s.visited ++ (visitRule ν).fresh s.visited ws := by
  induction ws generalizing s with
  | nil => exact ⟨s, rfl, rfl, (List.append_nil _).symm, (List.append_nil _).symm⟩
  | cons w ws ih =>
    rw [List.foldlM_cons, visitNeighbor_eq, Rule.fresh]
    by_cases ht : (visitRule ν).takes s.visited w = true
    · obtain ⟨s', hs', hmax, hqueue, hvisited⟩ := ih (s.push w)
      rw [if_pos ht, if_pos ht]
      refine ⟨s', hs', hmax, ?_, ?_⟩
      · rw [hqueue, GraphWalk.push, List.append_assoc]
        rfl
      · rw [hvisited, GraphWalk.push, List.append_assoc]
        rfl
    · rw [if_neg ht, if_neg ht]
      exact ih s

/-- The loop over the queue. -/
def graphLoop [Fintype ν] (heap : Heap ν Int32) (s : GraphWalk ν) : Option (GraphWalk ν) :=
  match _hqueue : s.queue with
  | [] => some s
  | curr :: queue =>
    match _h : (heap.neighbors curr).foldlM visitNeighbor (dequeue heap s curr queue) with
    | some next => graphLoop heap next
    | none => none
termination_by left s.queue s.visited
decreasing_by
  obtain ⟨s', hs', -, hq, hv⟩ := foldlM_visitNeighbor (dequeue heap s curr queue) (heap.neighbors curr)
  obtain rfl := Option.some.inj (hs'.symm.trans _h)
  rw [hq, hv, _hqueue]
  refine Nat.lt_of_le_of_lt (left_append_fresh queue s.visited (heap.neighbors curr)) ?_
  simp [left]

variable [Fintype ν]

theorem graphLoop_nil {s : GraphWalk ν} (h : s.queue = []) : graphLoop heap s = some s := by
  rw [graphLoop.eq_def]
  split
  case h_1 => rfl
  case h_2 curr queue hcons =>
    rw [h] at hcons
    cases hcons

theorem graphLoop_cons {s s' : GraphWalk ν} {curr : ν} {queue : List ν}
    (h : s.queue = curr :: queue)
    (hs' : (heap.neighbors curr).foldlM visitNeighbor (dequeue heap s curr queue) = some s') :
    graphLoop heap s = graphLoop heap s' := by
  rw [graphLoop.eq_def]
  split
  case h_1 hempty =>
    rw [h] at hempty
    cases hempty
  case h_2 curr' queue' hcons =>
    obtain ⟨rfl, rfl⟩ := List.cons.inj (h.symm.trans hcons)
    split
    case h_1 next hnext => rw [Option.some.inj (hs'.symm.trans hnext)]
    case h_2 hnone =>
      rw [hs'] at hnone
      cases hnone

/-- **The loop ends** with the nodes that a capped walk finds, and with the largest of their
values. -/
theorem graphLoop_eq (s : GraphWalk ν) (hw : Walking heap s) :
    ∃ s', graphLoop heap s = some s' ∧ s'.queue = [] ∧ Walking heap s' ∧
      s'.visited = walk (visitRule ν) heap.neighbors s.queue s.visited := by
  induction s using graphLoop.induct heap with
  | case1 s hempty =>
    refine ⟨s, graphLoop_nil hempty, hempty, hw, ?_⟩
    rw [hempty, walk_nil]
  | case2 s curr queue hcons next hnext ih =>
    obtain ⟨s', hs', hmax, hqueue, hvisited⟩ :=
      foldlM_visitNeighbor (dequeue heap s curr queue) (heap.neighbors curr)
    obtain rfl := Option.some.inj (hs'.symm.trans hnext)
    obtain ⟨last, hlast, hempty, hwalking, hfound⟩ := ih (hw.step hcons hmax hqueue hvisited)
    refine ⟨last, ?_, hempty, hwalking, ?_⟩
    · rw [graphLoop_cons hcons hnext, hlast]
    · rw [hfound, hqueue, hvisited, hcons, walk_cons]
      rfl
  | case3 s curr queue hcons hnone =>
    obtain ⟨s', hs', -⟩ := foldlM_visitNeighbor (dequeue heap s curr queue) (heap.neighbors curr)
    rw [hnone] at hs'
    cases hs'

end Walk

/-! ## Printing -/

/-- `nodes[neighbor_idx - 1]`. -/
def index (n : ℕ) (neighborIdx : Int32) : Option (Fin n) := nodeAt n (neighborIdx.toInt - 1)

/-- `graph_from_json`, on the numbers that `json_object_get_int` reads. -/
def graphFromJson (adj : List (List Int32)) : Option (Option (Graph Int32)) :=
  buildGraph index Int32.ofNat adj

/-- `graph_to_json`. -/
def graphToJson : Option (Graph Int32) → Option Json
  | none => some .null
  | some g =>
    (graphLoop g.heap ⟨[g.root], 1, [g.root], g.heap.val g.root, rfl⟩).map fun s =>
      .arr ((List.range' 1 s.maxVal.toInt.toNat).map fun i =>
        .arr ((g.heap.row s.visited (Int32.ofNat i)).map newInt))

end CWrapper

/-! ## Comparing the two -/

/-- The C wrapper prints a list without leaving its arrays, and the Rust wrapper prints the
same one. -/
def SameGraphOutput (rows : List (List Int32)) : Prop :=
  ∃ c text, (CWrapper.graphFromJson rows).bind CWrapper.graphToJson = some c ∧
    (RustWrapper.jsonToGraph (RustJson.ofJson (adjacencyJson Int32.toInt rows))).map
      RustWrapper.graphToJson = some text ∧
    Json.parse (String.ofList text) = some c

namespace AdjacencyList

variable {α : Type} {toInt : α → ℤ}

/-- The neighbours of a node, each by its index. -/
def next (adj : AdjacencyList α toInt) (i : Fin adj.rows.length) : List (Fin adj.rows.length) :=
  adj.rows[i].filterMap fun k => nodeAt adj.rows.length (toInt k - 1)

/-- The nodes in breadth-first order. -/
def order (adj : AdjacencyList α toInt) (h : 0 < adj.rows.length) : List (Fin adj.rows.length) :=
  walkFrom (byKey id) adj.next ⟨0, h⟩

/-- There is a node, and those that `capacity` cuts off the breadth-first order have no
neighbours and are not the last one. -/
def Fits (adj : AdjacencyList α toInt) : Prop :=
  ∃ h : 0 < adj.rows.length, ∀ i, i ∉ (adj.order h).take CWrapper.capacity →
    adj.rows[i] = [] ∧ (i : ℕ) + 1 < adj.rows.length

variable {adj : AdjacencyList α toInt}

/-- The graph in memory has the edges of the list. -/
theorem next_eq {heap : Heap (Fin adj.rows.length) α} {root : Fin adj.rows.length}
    (hg : Represents toInt adj.rows ⟨adj.rows.length, heap, root⟩) : heap.neighbors = adj.next := by
  funext i
  have hrow := hg.neighbors_eq i
  rw [List.getElem?_eq_getElem i.isLt] at hrow
  have hback : ∀ j : Fin adj.rows.length,
      nodeAt adj.rows.length (toInt (heap.val j) - 1) = some j := by
    intro j
    rw [show toInt (heap.val j) = (j : ℕ) + 1 from hg.val_eq j, add_sub_cancel_right,
      nodeAt_natCast j.isLt]
  unfold next
  rw [show adj.rows[i] = (heap.neighbors i).map heap.val from Option.some.inj hrow,
    List.filterMap_map]
  simp only [Function.comp_def, hback, List.filterMap_some]

/-- All nodes of such a list are in its breadth-first order. -/
theorem mem_order [DecidableEq α] (adj : AdjacencyList α toInt)
    {heap : Heap (Fin adj.rows.length) α} {root : Fin adj.rows.length}
    (hg : Represents toInt adj.rows ⟨adj.rows.length, heap, root⟩) (h : 0 < adj.rows.length)
    (i : Fin adj.rows.length) : i ∈ adj.order h := by
  have hroot : root = ⟨0, h⟩ := Fin.ext hg.root_eq
  unfold order
  rw [← next_eq hg, ← hroot]
  exact (mem_walkFrom_byKey fun u w _ _ huw => huw).mpr (hg.reachable i)

end AdjacencyList

/-! ## What the C wrapper prints -/

section Connected

variable {adj : AdjacencyList Int32 Int32.toInt} {heap : Heap (Fin adj.rows.length) Int32}
  {root : Fin adj.rows.length}

/-- **The walk of the C wrapper** stays in its arrays; its nodes are the first ones in
breadth-first order, and the largest value is the largest number of these. -/
theorem graphLoop_order (hg : Represents Int32.toInt adj.rows ⟨adj.rows.length, heap, root⟩)
    (h : 0 < adj.rows.length) :
    ∃ s, CWrapper.graphLoop heap ⟨[root], 1, [root], heap.val root, rfl⟩ = some s ∧
      s.visited = (adj.order h).take CWrapper.capacity ∧
      (∀ i ∈ s.visited, (i : ℕ) + 1 ≤ s.maxVal.toInt) ∧
      ∃ i ∈ s.visited, (i : ℕ) + 1 = s.maxVal.toInt := by
  have hstart : CWrapper.Walking heap ⟨[root], 1, [root], heap.val root, rfl⟩ :=
    ⟨fun v hv => hv, fun v hv => Or.inl hv, root, List.mem_singleton.mpr rfl, rfl⟩
  obtain ⟨s, hs, hempty, hwalking, hvisited⟩ := CWrapper.graphLoop_eq _ hstart
  have hroot : root = ⟨0, h⟩ := Fin.ext hg.root_eq
  refine ⟨s, hs, ?_, ?_, ?_⟩
  · have hcap : [root].length ≤ CWrapper.capacity := by
      rw [List.length_singleton]
      decide
    rw [hvisited, CWrapper.visitRule, walk_capped hcap, AdjacencyList.next_eq hg, hroot]
    rfl
  · intro i hi
    rw [← show (heap.val i).toInt = (i : ℕ) + 1 from hg.val_eq i]
    rcases hwalking.bounded i hi with hi | hi
    · rw [hempty] at hi
      cases hi
    · exact hi
  · obtain ⟨i, hi, hval⟩ := hwalking.attained
    refine ⟨i, hi, ?_⟩
    rw [← hval]
    exact (hg.val_eq i).symm

/-- **What the C wrapper prints** is the adjacency list if and only if the nodes it leaves out
have empty rows, and not the last one. -/
theorem graphToJson_eq_iff (hg : Represents Int32.toInt adj.rows ⟨adj.rows.length, heap, root⟩)
    (h : 0 < adj.rows.length) :
    CWrapper.graphToJson (some ⟨adj.rows.length, heap, root⟩) =
        some (adjacencyJson Int32.toInt adj.rows) ↔
      ∀ i, i ∉ (adj.order h).take CWrapper.capacity →
        adj.rows[i] = [] ∧ (i : ℕ) + 1 < adj.rows.length := by
  obtain ⟨s, hs, hvisited, hbound, last, hlast, hmax⟩ := graphLoop_order hg h
  have hinj : Function.Injective Int32.toInt := fun x y hxy => Int32.toInt_inj.mp hxy
  have hrow : ∀ i : Fin adj.rows.length, heap.row s.visited (Int32.ofNat (i + 1)) =
      if i ∈ s.visited then adj.rows[i] else [] := by
    intro i
    have hneighbors := hg.neighbors_eq i
    rw [List.getElem?_eq_getElem i.isLt] at hneighbors
    rw [hg.row_eq hinj s.visited (i := i) (toInt_number adj i i.isLt)]
    exact if_congr Iff.rfl (Option.some.inj hneighbors).symm rfl
  rw [CWrapper.graphToJson, hs, Option.map_some, Option.some_inj, adjacencyJson, Json.arr.injEq,
    ← hvisited]
  have hlow := Nat.one_le_iff_ne_zero.mpr h.ne'
  constructor
  · intro heq i hi
    have hlength := congrArg List.length heq
    rw [List.length_map, List.length_map, List.length_range'] at hlength
    have hprinted := congrArg (fun rows => rows[(i : ℕ)]?) heq
    simp only [List.getElem?_map] at hprinted
    rw [List.getElem?_range' (hlength.symm ▸ i.isLt), List.getElem?_eq_getElem i.isLt, Option.map_some,
      Option.map_some, Nat.one_mul, Nat.add_comm 1, hrow, if_neg hi, Option.some_inj,
      Json.arr.injEq, List.map_nil] at hprinted
    refine ⟨List.map_eq_nil_iff.mp hprinted.symm, ?_⟩
    -- the largest value is that of the last node, which is therefore not left out
    have hne : i ≠ last := fun h => hi (h ▸ hlast)
    have hval : (i : ℕ) ≠ last := fun h => hne (Fin.ext h)
    omega
  · intro hleft
    have hfull : s.maxVal.toInt.toNat = adj.rows.length := by
      by_cases hin : (⟨adj.rows.length - 1, by omega⟩ : Fin adj.rows.length) ∈ s.visited
      · have hle := hbound _ hin
        simp only at hle
        omega
      · have hlt := (hleft _ hin).2
        simp only at hlt
        omega
    apply List.ext_getElem?
    intro i
    simp only [List.getElem?_map]
    by_cases hi : i < adj.rows.length
    · have hi' := hrow ⟨i, hi⟩
      rw [List.getElem?_range' (hfull.symm ▸ hi), List.getElem?_eq_getElem hi, Option.map_some,
        Option.map_some, Nat.one_mul, Nat.add_comm 1, hi']
      split_ifs with hin
      · rfl
      · rw [show adj.rows[i] = [] from (hleft _ hin).1]
        rfl
    · rw [List.getElem?_eq_none (by rw [List.length_range']; omega),
        List.getElem?_eq_none (by omega)]
      rfl

end Connected

theorem CWrapper.index_eq {n : ℕ} {k : Int32} {i : ℕ} (hk : k.toInt = (i : ℤ) + 1) (h : i < n) :
    index n k = some ⟨i, h⟩ := by
  unfold index
  rw [hk, add_sub_cancel_right, nodeAt_natCast h]

/-- What the C wrapper prints is compared with the adjacency list, which the Rust wrapper
prints. -/
theorem sameGraphOutput_iff (adj : AdjacencyList Int32 Int32.toInt) :
    SameGraphOutput adj.rows ↔
      (CWrapper.graphFromJson adj.rows).bind CWrapper.graphToJson =
        some (adjacencyJson Int32.toInt adj.rows) := by
  have hrust := RustWrapper.graphToJson_jsonToGraph adj
  constructor
  · rintro ⟨c, text, hc, htext, hparse⟩
    rw [hrust] at htext
    rw [← Option.some.inj htext, Json.parse_print] at hparse
    rw [hc, hparse]
  · intro hc
    exact ⟨_, _, hc, hrust, Json.parse_print _ _⟩

/-- The graph that the C wrapper builds. -/
theorem exists_graph (adj : AdjacencyList Int32 Int32.toInt) (h : 0 < adj.rows.length) :
    ∃ heap root, CWrapper.graphFromJson adj.rows = some (some ⟨adj.rows.length, heap, root⟩) ∧
      Represents Int32.toInt adj.rows ⟨adj.rows.length, heap, root⟩ := by
  obtain ⟨⟨size, heap, root⟩, hbuild, hg⟩ := buildGraph_represents adj
    (fun x y hxy => Int32.toInt_inj.mp hxy) (toInt_number adj)
    (fun n k i hk h => CWrapper.index_eq hk h) (List.length_pos_iff.mp h)
  have hsize : size = adj.rows.length := hg.size_eq
  subst hsize
  exact ⟨heap, root, hbuild, hg⟩

theorem sameGraphOutput_iff_order (adj : AdjacencyList Int32 Int32.toInt)
    (h : 0 < adj.rows.length) :
    SameGraphOutput adj.rows ↔ ∀ i, i ∉ (adj.order h).take CWrapper.capacity →
      adj.rows[i] = [] ∧ (i : ℕ) + 1 < adj.rows.length := by
  obtain ⟨heap, root, hbuild, hg⟩ := exists_graph adj h
  rw [sameGraphOutput_iff, hbuild, Option.bind_some, graphToJson_eq_iff hg h]

/-- **The C and the Rust wrapper print the same graph** if and only if it has a node, and the
nodes after the first 1000 in breadth-first order have no neighbours and are not the last. -/
theorem graph_outputs_agree_iff (adj : AdjacencyList Int32 Int32.toInt) :
    SameGraphOutput adj.rows ↔ adj.Fits := by
  constructor
  · intro hsame
    by_cases hne : adj.rows = []
    · -- the C wrapper prints `null`
      have hnull : (CWrapper.graphFromJson adj.rows).bind CWrapper.graphToJson = some .null := by
        rw [hne]
        rfl
      rw [sameGraphOutput_iff, hnull] at hsame
      cases hsame
    · have hpos := List.length_pos_iff.mpr hne
      exact ⟨hpos, (sameGraphOutput_iff_order adj hpos).mp hsame⟩
  · rintro ⟨hpos, hfits⟩
    exact (sameGraphOutput_iff_order adj hpos).mpr hfits

/-- Up to 1000 nodes fit. -/
theorem AdjacencyList.fits_of_le (adj : AdjacencyList Int32 Int32.toInt)
    (hpos : 0 < adj.rows.length) (hle : adj.rows.length ≤ CWrapper.capacity) : adj.Fits := by
  obtain ⟨heap, root, -, hg⟩ := exists_graph adj hpos
  have hlength : (adj.order hpos).length ≤ CWrapper.capacity := by
    have hnodup : (adj.order hpos).Nodup := nodup_walkFrom
    have hcard := hnodup.length_le_card
    rw [Fintype.card_fin] at hcard
    omega
  refine ⟨hpos, fun i hi => absurd (mem_order adj hg hpos i) ?_⟩
  rwa [List.take_of_length_le hlength] at hi

/-- Of more than 1000 nodes, each with a neighbour, the C wrapper leaves some out. -/
theorem outputs_differ_of_large (adj : AdjacencyList Int32 Int32.toInt)
    (hgt : CWrapper.capacity < adj.rows.length) (hrows : [] ∉ adj.rows) :
    ¬SameGraphOutput adj.rows := by
  intro hsame
  have hpos : 0 < adj.rows.length := by omega
  have hfits := (sameGraphOutput_iff_order adj hpos).mp hsame
  have hall : ∀ i, i ∈ (adj.order hpos).take CWrapper.capacity := by
    intro i
    by_contra hi
    exact hrows ((hfits i hi).1 ▸ List.getElem_mem i.isLt)
  have hcard : Finset.univ.card ≤ ((adj.order hpos).take CWrapper.capacity).toFinset.card :=
    Finset.card_le_card fun i _ => List.mem_toFinset.mpr (hall i)
  have hle := hcard.trans (List.toFinset_card_le _)
  rw [Finset.card_fin, List.length_take] at hle
  omega

/-- A ring: an edge from each node to the next one, and from the last to the first. -/
def ring (n : ℕ) (hn : n < 2 ^ 31) : AdjacencyList Int32 Int32.toInt where
  rows := (List.range n).map fun i => [Int32.ofNat ((i + 1) % n + 1)]
  inRange row hrow k hk := by
    obtain ⟨i, hi, rfl⟩ := List.mem_map.mp hrow
    have hlt := Nat.mod_lt (i + 1) (Nat.zero_lt_of_lt (List.mem_range.mp hi))
    rw [List.mem_singleton.mp hk, Int32.toInt_ofNat_of_lt (by omega), List.length_map,
      List.length_range]
    omega
  connected i hi := by
    rw [List.length_map, List.length_range] at hi
    induction i with
    | zero => exact Relation.ReflTransGen.refl
    | succ i ih =>
      refine (ih (by omega)).tail ⟨[Int32.ofNat ((i + 1) % n + 1)], ?_, _,
        List.mem_singleton.mpr rfl, ?_⟩
      · rw [List.getElem?_map, List.getElem?_range (by omega)]
        rfl
      · rw [Nat.mod_eq_of_lt hi, Int32.toInt_ofNat_of_lt (by omega)]
        push_cast
        rfl

theorem length_ring {n : ℕ} (hn : n < 2 ^ 31) : (ring n hn).rows.length = n := by
  unfold ring
  rw [List.length_map, List.length_range]

theorem nil_notMem_ring {n : ℕ} (hn : n < 2 ^ 31) : [] ∉ (ring n hn).rows := by
  intro h
  obtain ⟨i, -, hi⟩ := List.mem_map.mp h
  exact List.cons_ne_nil _ _ hi

/-- A ring of 1001 nodes is too large. -/
theorem ring_outputs_differ : ¬SameGraphOutput (ring 1001 (by decide)).rows := by
  apply outputs_differ_of_large
  · rw [length_ring]
    decide
  · exact nil_notMem_ring _

end Judge
