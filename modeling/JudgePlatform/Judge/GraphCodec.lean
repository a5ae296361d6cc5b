/-
# Graphs on the wire

A graph is sent as an adjacency list: row `i` lists the neighbours of node `i`, and the
nodes are numbered from 1.  The wrappers build node objects from it and pass the first one
on; to print a graph they walk through it, keep one node for each value, and write the rows
of the values 1, 2, … (`pkg/wrappers/python_single_wrapper.tpl`, `rust_wrapper.tpl` and
`go_wrapper.tpl`).

Node objects have an identity, a value and neighbours.  The nodes of a dictionary are listed
in the order in which they were put in; each is there under its own value.

* `rows_of_represents` : what is printed of a graph whose nodes can all be reached.
* `graph_codec` : what is printed of the graph built from an adjacency list is that list.
-/
import JudgePlatform.Judge.RustJson
import JudgePlatform.Library.GoStruct
import JudgePlatform.Library.Traversal

namespace Judge

open Traversal

/-! ## Node objects -/

/-- The value and the neighbours of each node object. -/
structure Heap (ν V : Type) where
  val : ν → V
  neighbors : ν → List ν

/-- A graph in memory, and the node that stands for it. -/
structure Graph (V : Type) where
  size : ℕ
  heap : Heap (Fin size) V
  root : Fin size

section Printing

variable {ν V : Type} [DecidableEq V]

/-- The node that a dictionary holds for a value. -/
def Heap.get (heap : Heap ν V) (map : List ν) (v : V) : Option ν :=
  map.find? fun node => heap.val node = v

/-- The row of a value: what the neighbours of its node hold. -/
def Heap.row (heap : Heap ν V) (map : List ν) (v : V) : List V :=
  match heap.get map v with
  | some n => (heap.neighbors n).map heap.val
  | none => []

variable [Fintype ν] [DecidableEq ν]

/-- The dictionary that a walk from a node fills. -/
def Heap.nodeMap (heap : Heap ν V) (node : ν) : List ν :=
  walkFrom (byKey heap.val) heap.neighbors node

/-- The rows of the values 1, 2, … up to the size of the dictionary. -/
def Heap.rows (heap : Heap ν V) (number : ℕ → V) (node : ν) : List (List V) :=
  let map := heap.nodeMap node
  (List.range' 1 map.length).map fun i => heap.row map (number i)

end Printing

/-! ## Building -/

section Building

variable {α V : Type}

/-- The loop over the rows; there is no result when an entry is no index of a node. -/
def connect {n : ℕ} (index : α → Option (Fin n)) (val : Fin n → V) (rows : List (List α)) :
    Option (Heap (Fin n) V) :=
  (rows.mapM fun row : List α => row.mapM index).map fun edges => ⟨val, fun i => edges.getD i []⟩

/-- The graph of an adjacency list: a node for each row, numbered from 1. -/
def buildGraph (index : (n : ℕ) → α → Option (Fin n)) (number : ℕ → V) :
    List (List α) → Option (Option (Graph V))
  | [] => some none
  | row :: rows =>
    (connect (index (rows.length + 1)) (fun i => number (i + 1)) (row :: rows)).map fun heap =>
      some ⟨rows.length + 1, heap, 0⟩

/-- `nodes[i]` where an index out of range ends the run. -/
def nodeAt (n : ℕ) (i : ℤ) : Option (Fin n) :=
  if h : 0 ≤ i ∧ i < n then some ⟨i.toNat, by omega⟩ else none

/-- The JSON value of an adjacency list. -/
def adjacencyJson (toInt : α → ℤ) (rows : List (List α)) : Json :=
  .arr (rows.map fun row => .arr (row.map fun k => .num (JsonNumber.ofInt (toInt k))))

end Building

/-! ## The Python wrapper -/

namespace PythonWrapper

/-- `nodes[neighbor_idx - 1]`; a negative index counts from the end. -/
def index (n : ℕ) (neighborIdx : ℤ) : Option (Fin n) :=
  let i := neighborIdx - 1
  nodeAt n (if i < 0 then i + n else i)

/-- `build_graph`. -/
def buildGraph (adj : List (List ℤ)) : Option (Option (Graph ℤ)) :=
  Judge.buildGraph index (fun i => (i : ℤ)) adj

/-- `serialize_graph`. -/
def serializeGraph : Option (Graph ℤ) → List (List ℤ)
  | none => []
  | some g => g.heap.rows (fun i => (i : ℤ)) g.root

end PythonWrapper

/-! ## The Rust wrapper -/

namespace RustWrapper

/-- `struct Node`, for each node. -/
structure Nodes (ν : Type) where
  val : ν → Int32
  neighbors : ν → List (Option ν)

/-- `Option<Rc<RefCell<Node>>>`, with all nodes that are in memory. -/
structure GraphRc where
  size : ℕ
  nodes : Nodes (Fin size)
  root : Fin size

/-- A neighbour `None` is skipped. -/
def Nodes.heap {ν : Type} (nodes : Nodes ν) : Heap ν Int32 where
  val := nodes.val
  neighbors v := (nodes.neighbors v).reduceOption

/-- `push(Some(Rc::clone(..)))` for each neighbour. -/
def share (g : Graph Int32) : GraphRc where
  size := g.size
  nodes := ⟨g.heap.val, fun v => (g.heap.neighbors v).map some⟩
  root := g.root

/-- `nodes[(json_to_i32(nb) - 1) as usize]`; a negative number is no index as `usize`. -/
def index (n : ℕ) (nb : Int32) : Option (Fin n) := nodeAt n (nb - 1).toInt

/-- `json_to_graph`. -/
def jsonToGraph : RustJson → Option (Option GraphRc)
  | .arr adj =>
    (Judge.buildGraph index Int32.ofNat (adj.map (RustJson.jsonToVec RustJson.jsonToI32))).map
      (Option.map share)
  | _ => some none

/-- `graph_to_json`. -/
def graphToJson : Option GraphRc → List Char
  | none => "[]".toList
  | some g =>
    RustJson.joined ((g.nodes.heap.rows Int32.ofNat g.root).map fun row =>
      RustJson.joined (row.map RustJson.i32ToJson))

end RustWrapper

/-! ## The Go wrapper -/

namespace GoWrapper

/-- `json.Unmarshal(data, &adj)` for a variable `adj` of type `[][]int`. -/
def decodeAdjacency (data : Json) : Option (List (Option (List ℤ))) × Bool :=
  GoStruct.slice (GoStruct.slice GoStruct.int 0) none data none

/-- `nodes[nbIdx-1]`. -/
def index (n : ℕ) (nbIdx : ℤ) : Option (Fin n) := nodeAt n (nbIdx - 1)

/-- `graphFromJSON`. -/
def graphFromJSON (data : Json) : Option (Option (Graph ℤ)) :=
  match decodeAdjacency data with
  | (_, false) => some none
  | (adj, true) =>
    Judge.buildGraph index (fun i => (i : ℤ)) ((adj.getD []).map fun neighbors => neighbors.getD [])

/-- `MarshalJSON`. -/
def marshalJSON : Option (Graph ℤ) → Json
  | none => .null
  | some g => adjacencyJson id (g.heap.rows (fun i => (i : ℤ)) g.root)

end GoWrapper

/-! ## Adjacency lists -/

section Lists

variable {α : Type} {toInt : α → ℤ}

/-- From node `i + 1` to node `j + 1`. -/
def Edge (toInt : α → ℤ) (rows : List (List α)) (i j : ℕ) : Prop :=
  ∃ row, rows[i]? = some row ∧ ∃ k ∈ row, toInt k = j + 1

/-- An adjacency list of nodes that can all be reached from the first one; `α` are the
integers of a wrapper. -/
structure AdjacencyList (α : Type) (toInt : α → ℤ) where
  rows : List (List α)
  inRange : ∀ row ∈ rows, ∀ k ∈ row, 1 ≤ toInt k ∧ toInt k ≤ rows.length
  connected : ∀ i < rows.length, Relation.ReflTransGen (Edge toInt rows) 0 i

/-- The nodes of a graph are those of an adjacency list, in its order. -/
structure Represents (toInt : α → ℤ) (rows : List (List α)) (g : Graph α) : Prop where
  size_eq : g.size = rows.length
  val_eq : ∀ i, toInt (g.heap.val i) = i + 1
  neighbors_eq : ∀ i : Fin g.size, rows[(i : ℕ)]? = some ((g.heap.neighbors i).map g.heap.val)
  root_eq : (g.root : ℕ) = 0

/-! ## Building and printing -/

theorem exists_mapM {β : Type} {f : α → Option β} {g : β → α} {l : List α}
    (h : ∀ a ∈ l, ∃ b, f a = some b ∧ g b = a) : ∃ bs, l.mapM f = some bs ∧ bs.map g = l := by
  induction l with
  | nil => exact ⟨[], rfl, rfl⟩
  | cons a l ih =>
    obtain ⟨b, hb, hback⟩ := h a List.mem_cons_self
    obtain ⟨bs, hbs, hmap⟩ := ih fun x hx => h x (List.mem_cons_of_mem _ hx)
    refine ⟨b :: bs, ?_, ?_⟩
    · rw [List.mapM_cons, hb, hbs]
      rfl
    · rw [List.map_cons, hback, hmap]

/-- The loop over the rows succeeds when each entry is the value of the node it leads to. -/
theorem connect_eq {n : ℕ} (val : Fin n → α) {index : α → Option (Fin n)} {rows : List (List α)}
    (hindex : ∀ row ∈ rows, ∀ k ∈ row, ∃ i, index k = some i ∧ val i = k) :
    ∃ heap, connect index val rows = some heap ∧ heap.val = val ∧
      ∀ i : Fin n, (i : ℕ) < rows.length → rows[(i : ℕ)]? = some ((heap.neighbors i).map val) := by
  obtain ⟨edges, hedges, hback⟩ := exists_mapM (g := List.map val) fun row hrow =>
    exists_mapM (hindex row hrow)
  refine ⟨⟨val, fun i => edges.getD i []⟩, ?_, rfl, ?_⟩
  · rw [connect, hedges]
    rfl
  · intro i hi
    have hlength : edges.length = rows.length := by rw [← hback, List.length_map]
    conv_lhs => rw [← hback]
    dsimp only
    rw [List.getElem?_map, List.getD_eq_getElem?_getD, List.getElem?_eq_getElem (hlength ▸ hi)]
    rfl

variable {number : ℕ → α} {index : (n : ℕ) → α → Option (Fin n)}

/-- **A graph is built** from each adjacency list whose entries are numbers of its rows. -/
theorem buildGraph_represents (adj : AdjacencyList α toInt) (hinj : Function.Injective toInt)
    (hnumber : ∀ i < adj.rows.length, toInt (number (i + 1)) = i + 1)
    (hindex : ∀ n k i, toInt k = (i : ℕ) + 1 → (h : i < n) → index n k = some ⟨i, h⟩)
    (hne : adj.rows ≠ []) :
    ∃ g, buildGraph index number adj.rows = some (some g) ∧ Represents toInt adj.rows g := by
  obtain ⟨rows, inRange, connected⟩ := adj
  dsimp only at hnumber hne ⊢
  cases rows with
  | nil => exact absurd rfl hne
  | cons row rows =>
    have hentry : ∀ r ∈ row :: rows, ∀ k ∈ r, ∃ i : Fin (rows.length + 1),
        index (rows.length + 1) k = some i ∧ number (i + 1) = k := by
      intro r hr k hk
      obtain ⟨hlow, hhigh⟩ := inRange r hr k hk
      rw [List.length_cons] at hhigh hnumber
      have hk' : toInt k = ((toInt k - 1).toNat : ℕ) + 1 := by omega
      have hlt : (toInt k - 1).toNat < rows.length + 1 := by omega
      refine ⟨⟨_, hlt⟩, hindex _ k _ hk' hlt, hinj ?_⟩
      rw [hnumber _ hlt]
      exact hk'.symm
    obtain ⟨heap, hheap, hval, hneighbors⟩ := connect_eq (fun i => number (i + 1)) hentry
    refine ⟨⟨rows.length + 1, heap, 0⟩, ?_, rfl, ?_, ?_, rfl⟩
    · rw [buildGraph, hheap]
      rfl
    · intro i
      rw [hval]
      exact hnumber i i.isLt
    · intro i
      rw [hneighbors i i.isLt, hval]

theorem Represents.val_injective {rows : List (List α)} {g : Graph α}
    (h : Represents toInt rows g) : Function.Injective g.heap.val := by
  intro i j hij
  have hi := h.val_eq i
  rw [hij, h.val_eq j] at hi
  apply Fin.ext
  omega

/-- All nodes of a connected adjacency list can be reached in memory. -/
theorem Represents.reachable {adj : AdjacencyList α toInt} {g : Graph α}
    (h : Represents toInt adj.rows g) (i : Fin g.size) :
    Reachable g.heap.neighbors g.root i := by
  have hwalk : ∀ j, Relation.ReflTransGen (Edge toInt adj.rows) 0 j → (hj : j < g.size) →
      Reachable g.heap.neighbors g.root ⟨j, hj⟩ := by
    intro j hreach
    induction hreach with
    | refl =>
      intro hj
      have hroot : g.root = ⟨0, hj⟩ := Fin.ext h.root_eq
      rw [hroot]
      exact Relation.ReflTransGen.refl
    | @tail u v _ hedge ih =>
      intro hv
      obtain ⟨row, hrow, k, hk, hkv⟩ := hedge
      have hu : u < g.size := by
        rw [h.size_eq]
        exact (List.getElem?_eq_some_iff.mp hrow).1
      -- the entry is the value of the neighbour
      rw [h.neighbors_eq ⟨u, hu⟩] at hrow
      rw [← Option.some.inj hrow] at hk
      obtain ⟨w, hw, hwk⟩ := List.mem_map.mp hk
      have hwv : w = ⟨v, hv⟩ := by
        apply Fin.ext
        have hval := h.val_eq w
        rw [hwk, hkv] at hval
        simp only
        omega
      exact (ih hu).tail (hwv ▸ hw)
  exact hwalk i (adj.connected i (h.size_eq ▸ i.isLt)) i.isLt

theorem Heap.get_eq_some {ν V : Type} [DecidableEq V] {heap : Heap ν V} {map : List ν} {v : V}
    {node : ν} (hmem : node ∈ map) (hval : heap.val node = v)
    (hunique : ∀ w ∈ map, heap.val w = v → w = node) : heap.get map v = some node := by
  unfold Heap.get
  cases hfind : map.find? fun w => heap.val w = v with
  | none =>
    rw [List.find?_eq_none] at hfind
    exact absurd (decide_eq_true hval) (hfind node hmem)
  | some w =>
    have hw : heap.val w = v := by simpa using List.find?_some hfind
    rw [hunique w (List.mem_of_find?_eq_some hfind) hw]

/-- In a list of nodes of such a graph, the row of a number is that of its node, if the node is
there. -/
theorem Represents.row_eq [DecidableEq α] {rows : List (List α)} {g : Graph α}
    (h : Represents toInt rows g) (hinj : Function.Injective toInt) (map : List (Fin g.size))
    {i : Fin g.size} {v : α} (hv : toInt v = (i : ℕ) + 1) :
    g.heap.row map v = if i ∈ map then (g.heap.neighbors i).map g.heap.val else [] := by
  have hval : g.heap.val i = v := by
    apply hinj
    rw [h.val_eq, hv]
  have hunique : ∀ w ∈ map, g.heap.val w = v → w = i := by
    intro w _ hw
    exact h.val_injective (hw.trans hval.symm)
  unfold Heap.row
  split_ifs with hi
  · rw [Heap.get_eq_some hi hval hunique]
  · have hnone : g.heap.get map v = none := by
      unfold Heap.get
      rw [List.find?_eq_none]
      intro w hw hwv
      exact hi (hunique w hw (of_decide_eq_true hwv) ▸ hw)
    rw [hnone]

/-- **What is printed of a graph** whose nodes can all be reached is its adjacency list. -/
theorem rows_of_represents [DecidableEq α] {adj : AdjacencyList α toInt} {g : Graph α}
    (h : Represents toInt adj.rows g) (hinj : Function.Injective toInt)
    (hnumber : ∀ i < adj.rows.length, toInt (number (i + 1)) = i + 1) :
    g.heap.rows number g.root = adj.rows := by
  have hmem : ∀ i, i ∈ g.heap.nodeMap g.root := fun i =>
    (mem_walkFrom_byKey fun u w _ _ huw => h.val_injective huw).mpr (h.reachable i)
  have hlength : (g.heap.nodeMap g.root).length = adj.rows.length := by
    have hfinset : (g.heap.nodeMap g.root).toFinset = Finset.univ := by
      ext i
      simp [hmem i]
    have hnodup : (g.heap.nodeMap g.root).Nodup := nodup_walkFrom
    rw [← List.toFinset_card_of_nodup hnodup, ← h.size_eq]
    exact (congrArg Finset.card hfinset).trans (Finset.card_fin g.size)
  apply List.ext_getElem?
  intro i
  unfold Heap.rows
  simp only [List.getElem?_map]
  by_cases hi : i < adj.rows.length
  · have hsize : i < g.size := h.size_eq ▸ hi
    rw [List.getElem?_range' (hlength ▸ hi), h.neighbors_eq ⟨i, hsize⟩, Option.map_some,
      Nat.one_mul, Nat.add_comm 1 i, h.row_eq hinj _ (i := ⟨i, hsize⟩) (hnumber i hi), if_pos (hmem ⟨i, hsize⟩)]
  · rw [List.getElem?_eq_none (by rw [List.length_range']; omega), List.getElem?_eq_none (by omega)]
    rfl

end Lists

/-! ## The wrappers -/

theorem nodeAt_natCast {n i : ℕ} (h : i < n) : nodeAt n i = some ⟨i, h⟩ := by
  unfold nodeAt
  rw [dif_pos (by omega)]
  rfl

theorem PythonWrapper.index_eq {n : ℕ} {k : ℤ} {i : ℕ} (hk : id k = (i : ℤ) + 1) (h : i < n) :
    index n k = some ⟨i, h⟩ := by
  have hk' : k - 1 = i := by
    rw [id] at hk
    omega
  unfold index
  simp only
  rw [hk', if_neg (by omega), nodeAt_natCast h]

theorem RustWrapper.index_eq {n : ℕ} {k : Int32} {i : ℕ} (hk : k.toInt = (i : ℤ) + 1) (h : i < n) :
    index n k = some ⟨i, h⟩ := by
  have hhigh := k.toInt_lt
  have hsub : (k - 1).toInt = i := by
    rw [Int32.toInt_sub, hk, Int32.toInt_one, add_sub_cancel_right]
    exact Int.bmod_eq_of_le (by omega) (by omega)
  unfold index
  rw [hsub, nodeAt_natCast h]

theorem GoWrapper.index_eq {n : ℕ} {k : ℤ} {i : ℕ} (hk : id k = (i : ℤ) + 1) (h : i < n) :
    index n k = some ⟨i, h⟩ := by
  have hk' : k - 1 = i := by
    rw [id] at hk
    omega
  unfold index
  rw [hk', nodeAt_natCast h]

/-- The nodes of a list of `i32` have numbers that fit: all but the first are entries. -/
theorem toInt_number (adj : AdjacencyList Int32 Int32.toInt) :
    ∀ i < adj.rows.length, (Int32.ofNat (i + 1)).toInt = (i : ℤ) + 1 := by
  intro i hi
  have hfit : i + 1 < 2 ^ 31 := by
    rcases Relation.ReflTransGen.cases_tail (adj.connected i hi) with rfl | ⟨u, -, row, -, k, -, hk⟩
    · decide
    · have hhigh := k.toInt_lt
      omega
  rw [Int32.toInt_ofNat_of_lt hfit]
  push_cast
  rfl

theorem RustWrapper.heap_share (g : Graph Int32) : (share g).nodes.heap = g.heap := by
  have hsome : ∀ ws : List (Fin g.size), (ws.map some).reduceOption = ws := by
    intro ws
    induction ws with
    | nil => rfl
    | cons w ws ih => rw [List.map_cons, List.reduceOption_cons_of_some, ih]
  unfold share Nodes.heap
  simp only [hsome]

/-- What is decoded of a list whose elements are. -/
theorem GoWrapper.decode_slice {α β : Type} {d : GoStruct.Decoder β} {zero : β} {json : α → Json}
    {f : α → β} (h : ∀ a, d (json a) zero = (f a, true)) (xs : List α) :
    GoStruct.slice d zero (.arr (xs.map json)) none = (some (xs.map f), true) := by
  have helements : GoStruct.elements d zero (xs.map json) [] = (xs.map f, true) := by
    induction xs with
    | nil => rfl
    | cons x xs ih =>
      rw [List.map_cons, GoStruct.elements, List.headD_nil, List.tail_nil, ih, h]
      rfl
  rw [GoStruct.slice, Option.getD_none, helements]

theorem GoWrapper.decodeAdjacency_adjacencyJson (rows : List (List Int64)) :
    decodeAdjacency (adjacencyJson Int64.toInt rows) =
      (some (rows.map fun row => some (row.map Int64.toInt)), true) := by
  have hint : ∀ k : Int64,
      GoStruct.int (.num (JsonNumber.ofInt k.toInt)) 0 = (k.toInt, true) := by
    intro k
    rw [GoStruct.int, JsonNumber.parseInt64_ofInt ⟨k.le_toInt, k.toInt_lt⟩]
  exact decode_slice (decode_slice hint) rows

/-- The same adjacency list with integers of any size. -/
def AdjacencyList.integers {α : Type} {toInt : α → ℤ} (adj : AdjacencyList α toInt) :
    AdjacencyList ℤ id where
  rows := adj.rows.map (List.map toInt)
  inRange row hrow k hk := by
    obtain ⟨r, hr, rfl⟩ := List.mem_map.mp hrow
    obtain ⟨x, hx, rfl⟩ := List.mem_map.mp hk
    rw [List.length_map]
    exact adj.inRange r hr x hx
  connected i hi := by
    rw [List.length_map] at hi
    refine Relation.ReflTransGen.mono ?_ _ _ (adj.connected i hi)
    rintro u v ⟨row, hrow, k, hk, hkv⟩
    refine ⟨row.map toInt, ?_, toInt k, List.mem_map_of_mem hk, hkv⟩
    rw [List.getElem?_map, hrow, Option.map_some]

theorem adjacencyJson_integers {α : Type} {toInt : α → ℤ} (adj : AdjacencyList α toInt) :
    adjacencyJson id adj.integers.rows = adjacencyJson toInt adj.rows := by
  simp only [adjacencyJson, AdjacencyList.integers, List.map_map, Function.comp_def, id]

theorem PythonWrapper.serializeGraph_buildGraph (adj : AdjacencyList ℤ id) :
    (buildGraph adj.rows).map serializeGraph = some adj.rows := by
  have hnumber : ∀ i < adj.rows.length, id ((i + 1 : ℕ) : ℤ) = (i : ℤ) + 1 := by
    intro i _
    exact Nat.cast_succ i
  by_cases hne : adj.rows = []
  · rw [hne]
    rfl
  · obtain ⟨g, hbuild, hg⟩ := buildGraph_represents adj Function.injective_id hnumber
      (fun n k i hk h => index_eq hk h) hne
    rw [buildGraph, hbuild, Option.map_some, serializeGraph,
      rows_of_represents hg Function.injective_id hnumber]

/-- The graph of the Rust wrapper, whose `None` stands for the empty list. -/
theorem RustWrapper.jsonToGraph_adjacencyJson (rows : List (List Int32)) :
    jsonToGraph (RustJson.ofJson (adjacencyJson Int32.toInt rows)) =
      (Judge.buildGraph index Int32.ofNat rows).map (Option.map share) := by
  have hread := RustJson.encodes_i32.vec.vec.read rows
  rw [adjacencyJson, RustJson.ofJson]
  rw [RustJson.ofJson] at hread
  unfold jsonToGraph
  exact congrArg (fun rs => (Judge.buildGraph index Int32.ofNat rs).map (Option.map share)) hread

theorem RustWrapper.print_rows (rows : List (List Int32)) :
    RustJson.joined (rows.map fun row => RustJson.joined (row.map RustJson.i32ToJson)) =
      Json.print RustJson.rustEscape (adjacencyJson Int32.toInt rows) :=
  RustJson.encodes_i32.vec.vec.print rows

theorem RustWrapper.graphToJson_jsonToGraph (adj : AdjacencyList Int32 Int32.toInt) :
    (jsonToGraph (RustJson.ofJson (adjacencyJson Int32.toInt adj.rows))).map graphToJson =
      some (Json.print RustJson.rustEscape (adjacencyJson Int32.toInt adj.rows)) := by
  rw [jsonToGraph_adjacencyJson]
  by_cases hne : adj.rows = []
  · rw [hne, ← print_rows]
    rfl
  · have hinj : Function.Injective Int32.toInt := fun x y h => Int32.toInt_inj.mp h
    obtain ⟨g, hbuild, hg⟩ := buildGraph_represents adj hinj (toInt_number adj)
      (fun n k i hk h => index_eq hk h) hne
    rw [hbuild, Option.map_some, Option.map_some, Option.map_some, graphToJson, heap_share]
    show some (RustJson.joined ((g.heap.rows Int32.ofNat g.root).map _)) = _
    rw [rows_of_represents hg hinj (toInt_number adj), print_rows]

theorem GoWrapper.marshalJSON_graphFromJSON (adj : AdjacencyList Int64 Int64.toInt)
    (hne : adj.rows ≠ []) :
    (graphFromJSON (adjacencyJson Int64.toInt adj.rows)).map marshalJSON =
      some (adjacencyJson Int64.toInt adj.rows) := by
  have hnumber : ∀ i < adj.integers.rows.length, id ((i + 1 : ℕ) : ℤ) = (i : ℤ) + 1 := by
    intro i _
    exact Nat.cast_succ i
  have hrows : (adj.rows.map fun row => some (row.map Int64.toInt)).map
      (fun neighbors => neighbors.getD []) = adj.integers.rows := by
    rw [List.map_map]
    rfl
  have hne' : adj.integers.rows ≠ [] := by
    intro h
    exact hne (List.map_eq_nil_iff.mp h)
  obtain ⟨g, hbuild, hg⟩ := buildGraph_represents adj.integers Function.injective_id hnumber
    (fun n k i hk h => index_eq hk h) hne'
  unfold graphFromJSON
  rw [decodeAdjacency_adjacencyJson]
  simp only [Option.getD_some]
  rw [hrows, hbuild, Option.map_some, marshalJSON,
    rows_of_represents hg Function.injective_id hnumber, adjacencyJson_integers]

/-- **The graph codec**: what is printed of the graph that a wrapper builds from an adjacency
list is that list, in Python, in Rust and, for one node or more, in Go. -/
theorem graph_codec (python : AdjacencyList ℤ id) (rust : AdjacencyList Int32 Int32.toInt)
    (go : AdjacencyList Int64 Int64.toInt) (hgo : go.rows ≠ []) :
    (PythonWrapper.buildGraph python.rows).map PythonWrapper.serializeGraph = some python.rows ∧
      (RustWrapper.jsonToGraph (RustJson.ofJson (adjacencyJson Int32.toInt rust.rows))).map
          RustWrapper.graphToJson =
        some (Json.print RustJson.rustEscape (adjacencyJson Int32.toInt rust.rows)) ∧
      (GoWrapper.graphFromJSON (adjacencyJson Int64.toInt go.rows)).map GoWrapper.marshalJSON =
        some (adjacencyJson Int64.toInt go.rows) :=
  ⟨PythonWrapper.serializeGraph_buildGraph python, RustWrapper.graphToJson_jsonToGraph rust,
    GoWrapper.marshalJSON_graphFromJSON go hgo⟩

/-- Two nodes, with a self-loop, a repeated edge and an edge in one direction only. -/
def loopAndPair (α : Type) (toInt : α → ℤ) (one two : α) (h1 : toInt one = 1) (h2 : toInt two = 2) :
    AdjacencyList α toInt where
  rows := [[one, two, two], []]
  inRange row hrow k hk := by
    have hk' : k = one ∨ k = two := by
      rcases List.mem_pair.mp hrow with rfl | rfl
      · simpa using hk
      · cases hk
    rcases hk' with rfl | rfl
    · simp [h1]
    · simp [h2]
  connected i hi := by
    have hi' : i = 0 ∨ i = 1 := by
      rw [List.length_cons, List.length_singleton] at hi
      omega
    rcases hi' with rfl | rfl
    · exact Relation.ReflTransGen.refl
    · exact Relation.ReflTransGen.single ⟨[one, two, two], rfl, two, by simp, by rw [h2]; rfl⟩

theorem graph_codec_two :
    (PythonWrapper.buildGraph [[1, 2, 2], []]).map PythonWrapper.serializeGraph =
        some [[1, 2, 2], []] ∧
      (RustWrapper.jsonToGraph (RustJson.ofJson
          (adjacencyJson Int32.toInt [[1, 2, 2], []]))).map RustWrapper.graphToJson =
        some (Json.print RustJson.rustEscape (adjacencyJson Int32.toInt [[1, 2, 2], []])) ∧
      (GoWrapper.graphFromJSON (adjacencyJson Int64.toInt [[1, 2, 2], []])).map
          GoWrapper.marshalJSON = some (adjacencyJson Int64.toInt [[1, 2, 2], []]) :=
  graph_codec (loopAndPair ℤ id 1 2 rfl rfl) (loopAndPair Int32 Int32.toInt 1 2 rfl rfl)
    (loopAndPair Int64 Int64.toInt 1 2 rfl rfl) (List.cons_ne_nil _ _)

end Judge
