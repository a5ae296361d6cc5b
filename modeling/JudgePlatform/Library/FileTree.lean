/-
# File trees with symbolic links

A tree of directories, files and links, and two readings of a path.  `clean` reads it
as a text: `..` takes off the name before it.  `resolve` reads it as the operating system
does: it walks from directory to directory and puts the target of a link in the place
of its name, so that `..` after a link leaves the directory that the link led to.

* `erase` : the tree without an entry; `kindAt_eraseAll` says that nothing else changes.
* `Resolves` : the resolution of a path as a relation, which `resolve` computes up to a
  number of links.
* `LinksKept` : no `..` of a path takes off a name that the system finds to be a link.
* `Resolves.within` : where the targets of all links below a directory clean to paths below
  it and keep their links, no path below the directory resolves out of it.
-/
import Mathlib

namespace FileTree

/-! ## Paths -/

/-- The name of an entry. -/
abbrev Name := { s : String // s ≠ "" ∧ s ≠ "." ∧ s ≠ ".." }

/-- The names from the root to an entry. -/
abbrev Path := List Name

/-- A component of a path as it is written; `.` and an empty one say nothing. -/
inductive Component where
  | here
  | up
  | name (n : Name)
  deriving DecidableEq

def component (s : String) : Component :=
  if s = ".." then .up
  else if h : s ≠ "" ∧ s ≠ "." ∧ s ≠ ".." then .name ⟨s, h⟩
  else .here

def components (s : String) : List Component :=
  (s.toList.splitOn '/').map fun cs => component (String.ofList cs)

def isAbs (s : String) : Bool := s.toList.head? = some '/'

/-- The path that a text names from a directory, as a text. -/
def clean : Path → List Component → Path
  | p, [] => p
  | p, .here :: cs => clean p cs
  | p, .up :: cs => clean p.dropLast cs
  | p, .name n :: cs => clean (p ++ [n]) cs

/-! ## Trees -/

inductive Node where
  | file
  | link (target : String)
  | dir (entries : List (Name × Node))

/-- The entry of a directory. -/
def Node.entry : Node → Name → Option Node
  | .dir entries, n => (entries.find? fun e => e.1 = n).map Prod.snd
  | _, _ => none

/-- The node under a path, which no link is followed for. -/
def lookup : Node → Path → Option Node
  | x, [] => some x
  | x, n :: p => (x.entry n).bind fun y => lookup y p

/-- Where the target of a link in the directory `p` starts. -/
def start (target : String) (p : Path) : Path := if isAbs target then [] else p

/-! ## Removing entries -/

/-- The tree without the entry under a path. -/
def erase : Path → Node → Node
  | [], x => x
  | [n], .dir entries => .dir (entries.filter fun e => e.1 ≠ n)
  | n :: m :: p, .dir entries =>
    .dir (entries.map fun e => if e.1 = n then (e.1, erase (m :: p) e.2) else e)
  | _, x => x

inductive Kind where
  | file
  | link (target : String)
  | dir
  deriving DecidableEq

def Node.kind : Node → Kind
  | .file => .file
  | .link target => .link target
  | .dir _ => .dir

/-- What is under a path. -/
def kindAt (x : Node) (p : Path) : Option Kind := (lookup x p).map Node.kind

def eraseAll (paths : List Path) (x : Node) : Node := paths.foldl (fun x r => erase r x) x

section Erasing

variable {x : Node} {p r : Path} {n m : Name}

theorem entry_dir (entries : List (Name × Node)) (m : Name) :
    (Node.dir entries).entry m = (entries.find? fun e => e.1 = m).map Prod.snd := rfl

theorem entry_erase_singleton : (erase [n] x).entry m = if m = n then none else x.entry m := by
  cases x with
  | file => simp [erase, Node.entry]
  | link target => simp [erase, Node.entry]
  | dir entries =>
    rw [erase, entry_dir, entry_dir, List.find?_filter]
    split_ifs with h
    · rw [h, Option.map_eq_none_iff, List.find?_eq_none]
      simp
    · congr 2
      funext e
      by_cases he : e.1 = m
      · simp [he, h]
      · simp [he]

theorem entry_erase_cons {k : Name} :
    (erase (n :: k :: r) x).entry m =
      if m = n then (x.entry n).map (erase (k :: r)) else x.entry m := by
  cases x with
  | file => simp [erase, Node.entry]
  | link target => simp [erase, Node.entry]
  | dir entries =>
    have hkeys : ∀ e : Name × Node,
        (if e.1 = n then (e.1, erase (k :: r) e.2) else e).1 = e.1 := by
      intro e
      split_ifs <;> rfl
    rw [erase, entry_dir, entry_dir, entry_dir, List.find?_map, Option.map_map]
    simp only [Function.comp_def, hkeys]
    split_ifs with h
    · rw [h, Option.map_map]
      apply Option.map_congr
      intro e he
      have hn : e.1 = n := by simpa using List.find?_some he
      rw [if_pos hn]
      rfl
    · apply Option.map_congr
      intro e he
      have hm : e.1 = m := by simpa using List.find?_some he
      rw [if_neg fun hn => h (hm.symm.trans hn)]

theorem lookup_cons (x : Node) (n : Name) (p : Path) :
    lookup x (n :: p) = (x.entry n).bind fun y => lookup y p := by
  rw [lookup]

/-- Nothing is left under a removed entry. -/
theorem lookup_erase_below (hr : r ≠ []) (h : r <+: p) : lookup (erase r x) p = none := by
  induction r generalizing x p with
  | nil => exact absurd rfl hr
  | cons n r ih =>
    obtain ⟨q, rfl⟩ := h
    rw [List.cons_append, lookup_cons]
    cases r with
    | nil => rw [entry_erase_singleton, if_pos rfl, Option.bind_none]
    | cons k r =>
      rw [entry_erase_cons, if_pos rfl, Option.bind_eq_none_iff]
      intro y hy
      obtain ⟨z, -, rfl⟩ := Option.map_eq_some_iff.mp hy
      exact ih (List.cons_ne_nil k r) (List.prefix_append _ q)

/-- What is neither under a removed entry nor above it is left as it is. -/
theorem lookup_erase_of_apart (h : ¬r <+: p) (h' : ¬p <+: r) :
    lookup (erase r x) p = lookup x p := by
  induction r generalizing x p with
  | nil => exact absurd List.nil_prefix h
  | cons n r ih =>
    cases p with
    | nil => exact absurd List.nil_prefix h'
    | cons m p =>
      rw [List.cons_prefix_cons, not_and] at h h'
      rw [lookup_cons, lookup_cons]
      by_cases hm : m = n
      · subst hm
        cases r with
        | nil => exact absurd List.nil_prefix (h rfl)
        | cons k r =>
          rw [entry_erase_cons, if_pos rfl, Option.bind_map]
          congr 1
          funext y
          exact ih (h rfl) (h' rfl)
      · cases r with
        | nil => rw [entry_erase_singleton, if_neg hm]
        | cons k r => rw [entry_erase_cons, if_neg hm]

theorem kind_erase : (erase r x).kind = x.kind := by
  cases x with
  | file => cases r with | nil => rfl | cons n r => cases r <;> rfl
  | link target => cases r with | nil => rfl | cons n r => cases r <;> rfl
  | dir entries => cases r with | nil => rfl | cons n r => cases r <;> rfl

/-- **Everything that is not under a removed entry is left.** -/
theorem kindAt_erase (h : ¬r <+: p) : kindAt (erase r x) p = kindAt x p := by
  by_cases h' : p <+: r
  · -- an entry above the removed one, which is still there
    obtain ⟨q, rfl⟩ := h'
    unfold kindAt
    induction p generalizing x with
    | nil => exact congrArg some kind_erase
    | cons m p ih =>
      rw [List.cons_append, List.cons_prefix_cons, not_and] at h
      rw [List.cons_append, lookup_cons, lookup_cons]
      cases hpq : p ++ q with
      | nil =>
        obtain ⟨rfl, rfl⟩ := List.append_eq_nil_iff.mp hpq
        exact absurd List.prefix_rfl (h rfl)
      | cons k r =>
        rw [entry_erase_cons, if_pos rfl, Option.bind_map]
        cases x.entry m with
        | none => rfl
        | some y =>
          have hrest := @ih y (h rfl)
          rw [hpq] at hrest
          exact hrest
  · unfold kindAt
    rw [lookup_erase_of_apart h h']

theorem eraseAll_append (rs rs' : List Path) (x : Node) :
    eraseAll (rs ++ rs') x = eraseAll rs' (eraseAll rs x) := List.foldl_append

theorem lookup_eraseAll_of_apart {paths : List Path}
    (h : ∀ r ∈ paths, ¬r <+: p ∧ ¬p <+: r) : lookup (eraseAll paths x) p = lookup x p := by
  induction paths generalizing x with
  | nil => rfl
  | cons r paths ih =>
    obtain ⟨hr, hpaths⟩ := List.forall_mem_cons.mp h
    exact (ih hpaths).trans (lookup_erase_of_apart hr.1 hr.2)

/-- **What is left where several entries are removed.** -/
theorem kindAt_eraseAll {paths : List Path} (hne : ∀ r ∈ paths, r ≠ []) :
    kindAt (eraseAll paths x) p = if ∃ r ∈ paths, r <+: p then none else kindAt x p := by
  induction paths generalizing x with
  | nil => simp [eraseAll]
  | cons r paths ih =>
    obtain ⟨hr, hpaths⟩ := List.forall_mem_cons.mp hne
    show kindAt (eraseAll paths (erase r x)) p = _
    rw [ih hpaths]
    by_cases hp : r <+: p
    · have hgone : kindAt (erase r x) p = none := by
        unfold kindAt
        rw [lookup_erase_below hr hp, Option.map_none]
      rw [hgone, ite_self, if_pos ⟨r, List.mem_cons_self, hp⟩]
    · rw [kindAt_erase hp]
      simp only [List.exists_mem_cons_iff, hp, false_or]

/-- The entries of a directory are found under their names. -/
theorem entry_of_mem {entries : List (Name × Node)} (hnodup : (entries.map Prod.fst).Nodup)
    {e : Name × Node} (he : e ∈ entries) : (Node.dir entries).entry e.1 = some e.2 := by
  rw [entry_dir]
  induction entries with
  | nil => exact absurd he List.not_mem_nil
  | cons d entries ih =>
    rw [List.map_cons, List.nodup_cons] at hnodup
    rcases List.mem_cons.mp he with rfl | he
    · rw [List.find?_cons_of_pos (by simp)]
      rfl
    · have hne : d.1 ≠ e.1 := fun h => hnodup.1 (h ▸ List.mem_map_of_mem he)
      rw [List.find?_cons_of_neg (by simpa using hne)]
      exact ih hnodup.2 he

theorem mem_of_entry {entries : List (Name × Node)} {y : Node}
    (h : (Node.dir entries).entry n = some y) : (n, y) ∈ entries := by
  obtain ⟨e, he, rfl⟩ := Option.map_eq_some_iff.mp h
  have hn : e.1 = n := by simpa using List.find?_some he
  rw [← hn]
  exact List.mem_of_find?_eq_some he

end Erasing

/-! ## Resolution -/

/-- Walk along a path; `follow` goes on after the name of a link. -/
def walk (root : Node) (follow : Path → List Component → Option Path) :
    Path → List Component → Option Path
  | p, [] => some p
  | p, .here :: cs => walk root follow p cs
  | p, .up :: cs => walk root follow p.dropLast cs
  | p, .name n :: cs =>
    match lookup root (p ++ [n]) with
    | some .file => if cs = [] then some (p ++ [n]) else none
    | some (.link target) => follow (start target p) (components target ++ cs)
    | some (.dir _) => walk root follow (p ++ [n]) cs
    | none => none

/-- The resolution of a path from a directory, through at most so many links. -/
def resolve (root : Node) : ℕ → Path → List Component → Option Path
  | 0 => walk root fun _ _ => none
  | links + 1 => walk root (resolve root links)

/-- The resolution of a path from a directory. -/
inductive Resolves (root : Node) : Path → List Component → Path → Prop
  | nil (p : Path) : Resolves root p [] p
  | here {p q : Path} {cs : List Component} (h : Resolves root p cs q) :
      Resolves root p (.here :: cs) q
  | up {p q : Path} {cs : List Component} (h : Resolves root p.dropLast cs q) :
      Resolves root p (.up :: cs) q
  | file {p : Path} {n : Name} (h : lookup root (p ++ [n]) = some .file) :
      Resolves root p [.name n] (p ++ [n])
  | dir {p q : Path} {n : Name} {cs : List Component} {entries : List (Name × Node)}
      (hn : lookup root (p ++ [n]) = some (.dir entries)) (h : Resolves root (p ++ [n]) cs q) :
      Resolves root p (.name n :: cs) q
  | link {p m q : Path} {n : Name} {cs : List Component} {target : String}
      (hn : lookup root (p ++ [n]) = some (.link target))
      (ht : Resolves root (start target p) (components target) m) (h : Resolves root m cs q) :
      Resolves root p (.name n :: cs) q

section Sound

variable {root : Node} {p q : Path} {cs ds : List Component}

/-- A path resolves part by part. -/
theorem Resolves.split (h : Resolves root p (cs ++ ds) q) :
    ∃ m, Resolves root p cs m ∧ Resolves root m ds q := by
  induction cs generalizing p with
  | nil => exact ⟨p, .nil p, h⟩
  | cons c cs ih =>
    rw [List.cons_append] at h
    generalize hcs : cs ++ ds = es at h
    cases h with
    | here h =>
      obtain ⟨m, hm, hq⟩ := ih (hcs ▸ h)
      exact ⟨m, .here hm, hq⟩
    | up h =>
      obtain ⟨m, hm, hq⟩ := ih (hcs ▸ h)
      exact ⟨m, .up hm, hq⟩
    | file h =>
      obtain ⟨rfl, rfl⟩ := List.append_eq_nil_iff.mp hcs
      exact ⟨_, .file h, .nil _⟩
    | dir hn h =>
      obtain ⟨m, hm, hq⟩ := ih (hcs ▸ h)
      exact ⟨m, .dir hn hm, hq⟩
    | link hn ht h =>
      obtain ⟨m, hm, hq⟩ := ih (hcs ▸ h)
      exact ⟨m, .link hn ht hm, hq⟩

theorem walk_sound {follow : Path → List Component → Option Path}
    (hfollow : ∀ {p cs q}, follow p cs = some q → Resolves root p cs q)
    (h : walk root follow p cs = some q) : Resolves root p cs q := by
  induction cs generalizing p with
  | nil =>
    rw [walk, Option.some.injEq] at h
    exact h ▸ .nil p
  | cons c cs ih =>
    cases c with
    | here => exact .here (ih h)
    | up => exact .up (ih h)
    | name n =>
      rw [walk] at h
      cases hn : lookup root (p ++ [n]) with
      | none =>
        rw [hn] at h
        cases h
      | some x =>
        rw [hn] at h
        cases x with
        | file =>
          simp only at h
          split at h
          · rename_i hnil
            rw [Option.some.injEq] at h
            subst hnil
            exact h ▸ .file hn
          · cases h
        | link target =>
          obtain ⟨m, ht, hq⟩ := (hfollow h).split
          exact .link hn ht hq
        | dir entries => exact .dir hn (ih h)

/-- What the system computes is a resolution. -/
theorem resolve_sound {links : ℕ} (h : resolve root links p cs = some q) :
    Resolves root p cs q := by
  induction links generalizing p cs q with
  | zero => exact walk_sound (fun h => by cases h) h
  | succ links ih => exact walk_sound (fun h => ih h) h

end Sound

/-! ## Paths that keep their links -/

/-- The `..` of a path take off no more than the last `k` of the names before it. -/
def Keeps : ℕ → List Component → Prop
  | _, [] => True
  | k, .here :: cs => Keeps k cs
  | 0, .up :: _ => False
  | k + 1, .up :: cs => Keeps k cs
  | k, .name _ :: cs => Keeps (k + 1) cs

/-- No `..` of the path takes off a name that the system finds to be a link. -/
def LinksKept (root : Node) (p : Path) (cs : List Component) : Prop :=
  ∀ pre n rest m target, cs = pre ++ .name n :: rest → Resolves root p pre m →
    lookup root (m ++ [n]) = some (.link target) → Keeps 0 rest

section Within

variable {root : Node} {base p q : Path} {c : Component} {cs : List Component}

/-- What is kept is a part of the cleaned path. -/
theorem prefix_clean {k : ℕ} (h : Keeps k cs) {names : Path} (hk : names.length = k) :
    p <+: clean (p ++ names) cs := by
  induction cs generalizing k names with
  | nil => exact List.prefix_append p names
  | cons c cs ih =>
    cases c with
    | here => exact ih h hk
    | up =>
      cases k with
      | zero => exact h.elim
      | succ k =>
        have hne : names ≠ [] := by
          rintro rfl
          cases hk
        show p <+: clean (p ++ names).dropLast cs
        rw [List.dropLast_append_of_ne_nil hne]
        exact ih h (by rw [List.length_dropLast, hk]; rfl)
    | name n =>
      show p <+: clean (p ++ names ++ [n]) cs
      rw [List.append_assoc]
      exact ih h (by rw [List.length_append, hk]; rfl)

theorem keeps_of_no_up {k : ℕ} (h : ∀ c ∈ cs, c ≠ .up) : Keeps k cs := by
  induction cs generalizing k with
  | nil => cases k <;> exact trivial
  | cons c cs ih =>
    have hcs : ∀ k, Keeps k cs := fun k => ih fun c hc => h c (List.mem_cons_of_mem _ hc)
    cases c with
    | here => cases k <;> exact hcs _
    | up => exact absurd rfl (h _ List.mem_cons_self)
    | name n => cases k <;> exact hcs _

/-- A path without `..` keeps its links. -/
theorem linksKept_of_no_up (h : ∀ c ∈ cs, c ≠ .up) : LinksKept root p cs := by
  intro pre n rest m target hcs _ _
  refine keeps_of_no_up fun c hc => h c ?_
  rw [hcs]
  exact List.mem_append_right _ (List.mem_cons_of_mem _ hc)

/-- The links that a path keeps are kept by the rest of it. -/
theorem LinksKept.tail (h : LinksKept root p (c :: cs)) {m : Path}
    (hstep : ∀ {cs q}, Resolves root m cs q → Resolves root p (c :: cs) q) :
    LinksKept root m cs := by
  intro pre n rest m' target hcs hpre hn
  exact h (c :: pre) n rest m' target (congrArg (c :: ·) hcs) (hstep hpre) hn

/-- A directory lies in directories. -/
theorem lookup_prefix {x : Node} {p r : Path} {entries : List (Name × Node)}
    (h : lookup x (p ++ r) = some (.dir entries)) : ∃ es, lookup x p = some (.dir es) := by
  induction p generalizing x with
  | nil =>
    cases r with
    | nil => exact ⟨entries, h⟩
    | cons n r =>
      cases x with
      | file => cases h
      | link target => cases h
      | dir es => exact ⟨es, rfl⟩
  | cons n p ih =>
    obtain ⟨y, hy, hrest⟩ := Option.bind_eq_some_iff.mp h
    obtain ⟨es, hes⟩ := ih hrest
    exact ⟨es, Option.bind_eq_some_iff.mpr ⟨y, hy, hes⟩⟩

/-- **No path below a directory resolves out of it**, where the targets of the links below it
clean to paths below it and keep their links. -/
theorem Resolves.within {entries : List (Name × Node)}
    (hbase : lookup root base = some (.dir entries))
    (hlinks : ∀ p n target, base <+: p ++ [n] → lookup root (p ++ [n]) = some (.link target) →
      base <+: clean (start target p) (components target) ∧
        LinksKept root (start target p) (components target))
    (h : Resolves root p cs q) (hkept : LinksKept root p cs) (hclean : base <+: clean p cs) :
    base <+: q := by
  induction h with
  | nil p => exact hclean
  | here h ih => exact ih (hkept.tail fun h => .here h) hclean
  | up h ih => exact ih (hkept.tail fun h => .up h) hclean
  | file h => exact hclean
  | dir hn h ih => exact ih (hkept.tail fun h => .dir hn h) hclean
  | @link p m q n cs target hn ht h iht ih =>
    have hrest : Keeps 0 cs := hkept [] n cs p target rfl (.nil p) hn
    have hlink : base <+: p ++ [n] := by
      have hprefix : p ++ [n] <+: clean (p ++ [n] ++ []) cs := prefix_clean hrest rfl
      rw [List.append_nil] at hprefix
      rcases List.prefix_or_prefix_of_prefix hclean hprefix with hle | ⟨r, hr⟩
      · exact hle
      · -- what the directory lies in is no link
        rw [← hr] at hbase
        obtain ⟨es, hes⟩ := lookup_prefix hbase
        cases hn.symm.trans hes
    obtain ⟨htarget, htkept⟩ := hlinks p n target hlink hn
    have hm : base <+: m := iht htkept htarget
    refine ih (hkept.tail fun h => .link hn ht h) (hm.trans ?_)
    have hprefix : m <+: clean (m ++ []) cs := prefix_clean hrest rfl
    rwa [List.append_nil] at hprefix

end Within

end FileTree
