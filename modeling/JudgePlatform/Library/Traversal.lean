/-
# Walks through a graph with a queue

A walk takes a node off the front of its queue, looks at the nodes that its edges lead to,
and puts those it takes at the end of the queue.  Which it takes is a rule: a node none of
whose kind was found before (`byKey`), or only so many of them (`capped`).  The nodes stand
for objects, so that two of them may look the same.

* `walk` : the nodes found, in the order in which they are.
* `walk_all`, `walk_refuses` : what holds of every node found, and that the walk goes on
  until the rule takes none of the nodes that edges of found nodes lead to.
* `mem_walkFrom_byKey` : where no two reachable nodes have one key, all reachable nodes are found.
* `walk_capped` : a capped walk finds the first nodes of the walk without a cap.
-/
import Mathlib

namespace Traversal

variable {ν κ : Type*}

/-! ## Rules -/

/-- Whether a walk takes a node that it comes across, given the nodes it has found; it takes
none a second time, and none that it has refused before. -/
structure Rule (ν : Type*) where
  takes : List ν → ν → Bool
  new : ∀ {found w}, takes found w = true → w ∉ found
  refuses : ∀ {found w} (more : List ν), takes found w = false → takes (found ++ more) w = false

/-- The nodes whose key no node found has. -/
def byKey [DecidableEq κ] (key : ν → κ) : Rule ν where
  takes found w := decide (key w ∉ found.map key)
  new h hw := of_decide_eq_true h (List.mem_map_of_mem hw)
  refuses more h := by
    rw [decide_eq_false_iff_not, not_not] at h ⊢
    rw [List.map_append]
    exact List.mem_append_left _ h

/-- The nodes that another rule takes, until `cap` are found. -/
def Rule.capped (rule : Rule ν) (cap : ℕ) : Rule ν where
  takes found w := rule.takes found w && decide (found.length < cap)
  new h := rule.new (Bool.and_eq_true_iff.mp h).1
  refuses more h := by
    rw [Bool.and_eq_false_iff] at h ⊢
    rcases h with h | h
    · exact Or.inl (rule.refuses more h)
    · right
      rw [decide_eq_false_iff_not] at h ⊢
      rw [List.length_append]
      omega

theorem byKey_takes_eq_false [DecidableEq κ] {key : ν → κ} {found : List ν} {w : ν} :
    (byKey key).takes found w = false ↔ key w ∈ found.map key := by
  simp [byKey]

/-! ## One node -/

/-- The queue and the nodes found, after one node that an edge leads to. -/
def Rule.meet (rule : Rule ν) (s : List ν × List ν) (w : ν) : List ν × List ν :=
  if rule.takes s.2 w then (s.1 ++ [w], s.2 ++ [w]) else s

/-- The nodes taken when a walk comes across those of a list, one after the other. -/
def Rule.fresh (rule : Rule ν) : List ν → List ν → List ν
  | _, [] => []
  | found, w :: ws =>
    if rule.takes found w then w :: rule.fresh (found ++ [w]) ws else rule.fresh found ws

variable {rule : Rule ν}

theorem Rule.foldl_meet (queue found ws : List ν) :
    ws.foldl rule.meet (queue, found) =
      (queue ++ rule.fresh found ws, found ++ rule.fresh found ws) := by
  induction ws generalizing queue found with
  | nil => simp [fresh]
  | cons w ws ih =>
    rw [List.foldl_cons, meet, fresh]
    split
    · rw [ih, List.append_assoc, List.append_assoc]
      rfl
    · exact ih queue found

theorem Rule.mem_of_mem_fresh {found ws : List ν} {w : ν} (h : w ∈ rule.fresh found ws) :
    w ∈ ws := by
  induction ws generalizing found with
  | nil => exact h
  | cons x ws ih =>
    rw [fresh] at h
    split at h
    · rcases List.mem_cons.mp h with rfl | h
      · exact List.mem_cons_self
      · exact List.mem_cons_of_mem _ (ih h)
    · exact List.mem_cons_of_mem _ (ih h)

/-- Once it has come across a node, the rule takes it no more. -/
theorem Rule.refuses_fresh {found ws : List ν} {w : ν} (h : w ∈ ws) :
    rule.takes (found ++ rule.fresh found ws) w = false := by
  have htaken : ∀ {found x}, x ∈ found → rule.takes found x = false := by
    intro found x hx
    by_contra ht
    exact rule.new (Bool.eq_true_of_not_eq_false ht) hx
  induction ws generalizing found with
  | nil => cases h
  | cons x ws ih =>
    rw [fresh]
    split
    case isTrue ht =>
      rcases List.mem_cons.mp h with rfl | h
      · exact htaken (by simp)
      · have hnext := @ih (found ++ [x]) h
        rwa [List.append_assoc] at hnext
    case isFalse ht =>
      rcases List.mem_cons.mp h with rfl | h
      · exact rule.refuses _ (Bool.eq_false_of_not_eq_true ht)
      · exact ih h

theorem Rule.nodup_fresh {found : List ν} (h : found.Nodup) (ws : List ν) :
    (found ++ rule.fresh found ws).Nodup := by
  induction ws generalizing found with
  | nil => rwa [fresh, List.append_nil]
  | cons w ws ih =>
    rw [fresh]
    split
    case isTrue ht =>
      have hnext : (found ++ [w]).Nodup := by
        rw [List.nodup_append]
        exact ⟨h, List.nodup_singleton w, fun a ha b hb hab =>
          rule.new ht (List.mem_singleton.mp hb ▸ hab ▸ ha)⟩
      have hrest := ih hnext
      rwa [List.append_assoc] at hrest
    case isFalse ht => exact ih h

theorem nodup_map_fresh [DecidableEq κ] {key : ν → κ} {found : List ν} (h : (found.map key).Nodup) (ws : List ν) :
    ((found ++ (byKey key).fresh found ws).map key).Nodup := by
  induction ws generalizing found with
  | nil => rwa [Rule.fresh, List.append_nil]
  | cons w ws ih =>
    rw [Rule.fresh]
    split
    case isTrue ht =>
      have hnew : key w ∉ found.map key := of_decide_eq_true ht
      have hnext : ((found ++ [w]).map key).Nodup := by
        rw [List.map_append, List.nodup_append]
        exact ⟨h, List.nodup_singleton _, fun a ha b hb hab =>
          hnew (List.mem_singleton.mp hb ▸ hab ▸ ha)⟩
      have hrest := ih hnext
      rwa [List.append_assoc] at hrest
    case isFalse ht => exact ih h

theorem Rule.fresh_capped {cap : ℕ} {found : List ν} (h : found.length ≤ cap) (ws : List ν) :
    (rule.capped cap).fresh found ws = (rule.fresh found ws).take (cap - found.length) := by
  induction ws generalizing found with
  | nil => simp [fresh]
  | cons w ws ih =>
    rw [fresh, fresh]
    by_cases ht : rule.takes found w = true
    · rw [if_pos ht]
      by_cases hroom : found.length < cap
      · have htakes : (rule.capped cap).takes found w = true := by simp [capped, ht, hroom]
        have hlength : (found ++ [w]).length ≤ cap := by
          rw [List.length_append, List.length_singleton]
          omega
        rw [if_pos htakes, ih hlength, List.length_append, List.length_singleton,
          show cap - found.length = cap - (found.length + 1) + 1 by omega, List.take_succ_cons]
      · have htakes : (rule.capped cap).takes found w = false := by simp [capped, hroom]
        rw [if_neg (by simp [htakes]), ih h, show cap - found.length = 0 by omega,
          List.take_zero, List.take_zero]
    · have htakes : (rule.capped cap).takes found w = false := by simp [capped, ht]
      rw [if_neg (by simp [htakes]), if_neg ht, ih h]

/-! ## The walk -/

/-- What is left to do: the nodes not found yet, and those in the queue. -/
def left [Fintype ν] [DecidableEq ν] (queue found : List ν) : ℕ :=
  (Finset.univ.filter fun v => v ∉ found).card + queue.length

theorem left_append_fresh [Fintype ν] [DecidableEq ν] (queue found ws : List ν) :
    left (queue ++ rule.fresh found ws) (found ++ rule.fresh found ws) ≤ left queue found := by
  induction ws generalizing queue found with
  | nil => simp [Rule.fresh]
  | cons w ws ih =>
    rw [Rule.fresh]
    split
    case isTrue ht =>
      have hnext := ih (queue ++ [w]) (found ++ [w])
      rw [List.append_assoc, List.append_assoc] at hnext
      refine hnext.trans ?_
      -- the node leaves those not found, and joins the queue
      have hcard : (Finset.univ.filter fun v => v ∉ found ++ [w]).card <
          (Finset.univ.filter fun v => v ∉ found).card := by
        apply Finset.card_lt_card
        rw [Finset.ssubset_iff_of_subset]
        · exact ⟨w, by simpa using rule.new ht, by simp⟩
        · intro v hv
          simp only [Finset.mem_filter, Finset.mem_univ, true_and, List.mem_append] at hv ⊢
          exact fun h => hv (Or.inl h)
      unfold left
      rw [List.length_append, List.length_singleton]
      omega
    case isFalse ht => exact ih queue found

/-- **The nodes that a walk finds**, from the nodes in its queue and those found already. -/
def walk [Fintype ν] [DecidableEq ν] (rule : Rule ν) (next : ν → List ν) :
    List ν → List ν → List ν
  | [], found => found
  | v :: queue, found =>
    let s := (next v).foldl rule.meet (queue, found)
    walk rule next s.1 s.2
termination_by queue found => left queue found
decreasing_by
  rw [rule.foldl_meet]
  refine Nat.lt_of_le_of_lt (left_append_fresh queue found (next v)) ?_
  simp [left]

variable [Fintype ν] [DecidableEq ν] {next : ν → List ν}

@[simp] theorem walk_nil (found : List ν) : walk rule next [] found = found := by rw [walk]

theorem walk_cons (v : ν) (queue found : List ν) :
    walk rule next (v :: queue) found =
      walk rule next (queue ++ rule.fresh found (next v)) (found ++ rule.fresh found (next v)) := by
  rw [walk, rule.foldl_meet]

/-- The induction along a walk: what holds when the queue is empty, and before a node is
taken off the queue if it holds after. -/
theorem walk_induction (rule : Rule ν) (next : ν → List ν) {P : List ν → List ν → Prop}
    (nil : ∀ found, P [] found)
    (cons : ∀ v queue found,
      P (queue ++ rule.fresh found (next v)) (found ++ rule.fresh found (next v)) →
        P (v :: queue) found) (queue found : List ν) : P queue found := by
  induction queue, found using walk.induct rule next with
  | case1 found => exact nil found
  | case2 v queue found s ih =>
    apply cons
    have hs : s = _ := rule.foldl_meet queue found (next v)
    rwa [hs] at ih

/-! ## What a walk finds -/

theorem prefix_walk (queue found : List ν) : found <+: walk rule next queue found := by
  induction queue, found using walk_induction rule next with
  | nil found => rw [walk_nil]
  | cons v queue found ih =>
    rw [walk_cons]
    exact (List.prefix_append _ _).trans ih

theorem nodup_walk {queue found : List ν} (h : found.Nodup) :
    (walk rule next queue found).Nodup := by
  induction queue, found using walk_induction rule next with
  | nil found => rwa [walk_nil]
  | cons v queue found ih =>
    rw [walk_cons]
    exact ih (rule.nodup_fresh h (next v))

/-- **What edges preserve** holds of all nodes that a walk finds. -/
theorem walk_all {P : ν → Prop} (hedge : ∀ v w, P v → w ∈ next v → P w) {queue found : List ν}
    (hqueue : ∀ v ∈ queue, P v) (hfound : ∀ v ∈ found, P v) :
    ∀ v ∈ walk rule next queue found, P v := by
  induction queue, found using walk_induction rule next with
  | nil found => rwa [walk_nil]
  | cons v queue found ih =>
    rw [walk_cons]
    have hnew : ∀ w ∈ rule.fresh found (next v), P w := by
      intro w hw
      exact hedge v w (hqueue v List.mem_cons_self) (rule.mem_of_mem_fresh hw)
    apply ih
    · intro w hw
      rcases List.mem_append.mp hw with hw | hw
      · exact hqueue w (List.mem_cons_of_mem _ hw)
      · exact hnew w hw
    · intro w hw
      rcases List.mem_append.mp hw with hw | hw
      · exact hfound w hw
      · exact hnew w hw

/-- **The walk ends where nothing is left to take**: of a node found, all edges have been
looked at. -/
theorem walk_refuses {queue found : List ν}
    (h : ∀ v ∈ found, v ∈ queue ∨ ∀ w ∈ next v, rule.takes found w = false) :
    ∀ v ∈ walk rule next queue found, ∀ w ∈ next v,
      rule.takes (walk rule next queue found) w = false := by
  induction queue, found using walk_induction rule next with
  | nil found =>
    intro v hv
    rw [walk_nil] at hv ⊢
    rcases h v hv with hqueue | hedges
    · cases hqueue
    · exact hedges
  | cons v queue found ih =>
    rw [walk_cons]
    apply ih
    intro u hu
    rcases List.mem_append.mp hu with hu | hu
    · rcases h u hu with hqueue | hedges
      · rcases List.mem_cons.mp hqueue with rfl | hqueue
        -- the node off the front of the queue
        · right
          intro w hw
          exact rule.refuses_fresh hw
        · exact Or.inl (List.mem_append_left _ hqueue)
      · right
        intro w hw
        exact rule.refuses _ (hedges w hw)
    · exact Or.inl (List.mem_append_right _ hu)

/-! ## From one node -/

/-- The nodes that edges lead to from a node. -/
def Reachable (next : ν → List ν) (root v : ν) : Prop :=
  Relation.ReflTransGen (fun u w => w ∈ next u) root v

/-- The nodes found from one node. -/
def walkFrom (rule : Rule ν) (next : ν → List ν) (root : ν) : List ν :=
  walk rule next [root] [root]

variable {root v : ν}

theorem root_mem_walkFrom : root ∈ walkFrom rule next root :=
  (prefix_walk [root] [root]).subset (List.mem_singleton.mpr rfl)

theorem nodup_walkFrom : (walkFrom rule next root).Nodup :=
  nodup_walk (List.nodup_singleton root)

theorem reachable_of_mem_walkFrom (h : v ∈ walkFrom rule next root) : Reachable next root v := by
  refine walk_all (fun u w hu hw => hu.tail hw) ?_ ?_ v h
  · intro u hu
    rw [List.mem_singleton.mp hu]
    exact Relation.ReflTransGen.refl
  · intro u hu
    rw [List.mem_singleton.mp hu]
    exact Relation.ReflTransGen.refl

theorem walkFrom_refuses {w : ν} (h : v ∈ walkFrom rule next root) (hw : w ∈ next v) :
    rule.takes (walkFrom rule next root) w = false :=
  walk_refuses (fun _ hu => Or.inl hu) v h w hw

section Keys

variable [DecidableEq κ] {key : ν → κ}

/-- The key of a node that an edge of a found node leads to is the key of a found node. -/
theorem key_mem_walkFrom {w : ν} (h : v ∈ walkFrom (byKey key) next root) (hw : w ∈ next v) :
    key w ∈ (walkFrom (byKey key) next root).map key :=
  byKey_takes_eq_false.mp (walkFrom_refuses h hw)

/-- No two nodes found have one key. -/
theorem nodup_map_walkFrom : ((walkFrom (byKey key) next root).map key).Nodup := by
  have hwalk : ∀ queue found : List ν, (found.map key).Nodup →
      ((walk (byKey key) next queue found).map key).Nodup := by
    intro queue found
    induction queue, found using walk_induction (byKey key) next with
    | nil found =>
      intro h
      rwa [walk_nil]
    | cons v queue found ih =>
      intro h
      rw [walk_cons]
      exact ih (nodup_map_fresh h (next v))
  exact hwalk [root] [root] (List.nodup_singleton _)

/-- **All reachable nodes are found** where their keys tell them apart. -/
theorem mem_walkFrom_byKey
    (hkey : ∀ u w, Reachable next root u → Reachable next root w → key u = key w → u = w) :
    v ∈ walkFrom (byKey key) next root ↔ Reachable next root v := by
  refine ⟨reachable_of_mem_walkFrom, fun h => ?_⟩
  induction h with
  | refl => exact root_mem_walkFrom
  | tail hu hw ih =>
    obtain ⟨x, hx, hkeys⟩ := List.mem_map.mp (key_mem_walkFrom ih hw)
    rwa [← hkey x _ (reachable_of_mem_walkFrom hx) (hu.tail hw) hkeys]

end Keys

/-! ## With a cap -/

section Cap

variable {cap : ℕ}

/-- A walk that has found as many nodes as it may finds no more. -/
theorem walk_capped_full {queue found : List ν} (h : found.length = cap) :
    walk (rule.capped cap) next queue found = found := by
  induction queue with
  | nil => rw [walk_nil]
  | cons v queue ih =>
    have hfresh : (rule.capped cap).fresh found (next v) = [] := by
      rw [rule.fresh_capped h.le, h, Nat.sub_self, List.take_zero]
    rw [walk_cons, hfresh, List.append_nil, List.append_nil]
    exact ih

/-- **A capped walk** finds the first nodes of the walk without a cap. -/
theorem walk_capped {queue found : List ν} (h : found.length ≤ cap) :
    walk (rule.capped cap) next queue found = (walk rule next queue found).take cap := by
  induction queue, found using walk_induction rule next with
  | nil found => rw [walk_nil, walk_nil, List.take_of_length_le h]
  | cons v queue found ih =>
    rw [walk_cons, walk_cons, rule.fresh_capped h]
    by_cases hfit : (found ++ rule.fresh found (next v)).length ≤ cap
    · have hall : (rule.fresh found (next v)).take (cap - found.length) =
          rule.fresh found (next v) := by
        rw [List.length_append] at hfit
        exact List.take_of_length_le (by omega)
      rw [hall]
      exact ih hfit
    · -- the cap is reached at this node
      rw [List.length_append] at hfit
      have hfull : (found ++ (rule.fresh found (next v)).take (cap - found.length)).length = cap := by
        rw [List.length_append, List.length_take]
        omega
      rw [walk_capped_full hfull]
      have hprefix : found ++ rule.fresh found (next v) <+: walk rule next
          (queue ++ rule.fresh found (next v)) (found ++ rule.fresh found (next v)) :=
        prefix_walk _ _
      obtain ⟨more, hmore⟩ := hprefix
      rw [← hmore, List.append_assoc, List.take_append, List.take_of_length_le h,
        List.take_append_of_le_length (by omega)]

end Cap

end Traversal
