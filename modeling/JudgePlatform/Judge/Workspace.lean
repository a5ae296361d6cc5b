/-
# Links in a workspace

Before the files of a submission are copied into a container, `ValidateNoExternalSymlinks`
walks over the workspace and cleans the target of every link as a text.  The theorem says
when that is enough for the links, which the operating system follows one by one, to stay
in the workspace.
-/
import JudgePlatform.Library.FileTree

namespace Workspace

open FileTree

/-! ## The check -/

/-- `filepath.Rel` of two clean absolute paths. -/
def rel : Path → Path → List Component
  | base, [] => List.replicate base.length .up
  | [], target => target.map .name
  | b :: base, t :: target =>
    if b = t then rel base target
    else List.replicate (base.length + 1) .up ++ (t :: target).map .name

def isWithinBase (baseAbs targetAbs : Path) : Bool := (rel baseAbs targetAbs).head? ≠ some .up

def text (path : Path) : String := "/" ++ "/".intercalate (path.map Subtype.val)

/-- The target of a link, from the directory that the link is in. -/
def resolved (path : Path) (target : String) : Path :=
  clean (start target path.dropLast) (components target)

def checkLink (baseAbs path : Path) (target : String) : Except String Unit :=
  if isWithinBase baseAbs (resolved path target) then .ok ()
  else .error s!"external symlink detected: {text path} -> {target}"

-- `filepath.Walk`: an error of one file ends the walk
mutual

def visit (baseAbs path : Path) : Node → Except String Unit
  | .file => .ok ()
  | .link target => checkLink baseAbs path target
  | .dir entries => visitAll baseAbs path entries

def visitAll (baseAbs path : Path) : List (Name × Node) → Except String Unit
  | [] => .ok ()
  | e :: entries => do
    visitEntry baseAbs path e
    visitAll baseAbs path entries

def visitEntry (baseAbs path : Path) : Name × Node → Except String Unit
  | (n, x) => visit baseAbs (path ++ [n]) x

end

def validateNoExternalSymlinks (root : Node) (baseAbs : Path) : Except String Unit :=
  match lookup root baseAbs with
  | some x => visit baseAbs baseAbs x
  | none => .error s!"lstat {text baseAbs}: no such file or directory"

/-- How many links the system follows in one resolution. -/
def maxLinks : ℕ := 40

/-- The resolution of an absolute path by the operating system. -/
def realpath (root : Node) (path : Path) : Option Path := resolve root maxLinks [] (path.map .name)

/-! ## What the check accepts -/

theorem isWithinBase_iff {base target : Path} :
    isWithinBase base target = true ↔ base <+: target := by
  unfold isWithinBase
  induction base generalizing target with
  | nil => cases target <;> simp [rel]
  | cons b base ih =>
    cases target with
    | nil => simp [rel, List.replicate_succ]
    | cons t target =>
      by_cases h : b = t
      · rw [rel, if_pos h, ih, List.cons_prefix_cons]
        exact ⟨fun hp => ⟨h, hp⟩, And.right⟩
      · rw [rel, if_neg h, List.cons_prefix_cons]
        simp [List.replicate_succ, h]

section Accepted

variable {base path : Path}

theorem visitAll_mem {entries : List (Name × Node)} {e : Name × Node}
    (h : visitAll base path entries = .ok ()) (he : e ∈ entries) :
    visit base (path ++ [e.1]) e.2 = .ok () := by
  induction entries with
  | nil => cases he
  | cons d entries ih =>
    rw [visitAll] at h
    cases hd : visitEntry base path d with
    | error err =>
      rw [hd] at h
      cases h
    | ok u =>
      rw [hd] at h
      rcases List.mem_cons.mp he with rfl | he
      · obtain ⟨n, y⟩ := e
        rwa [visitEntry] at hd
      · exact ih h he

/-- The walk comes to every link below it. -/
theorem visit_link {x : Node} {r : Path} {target : String} (h : visit base path x = .ok ())
    (hr : lookup x r = some (.link target)) : base <+: resolved (path ++ r) target := by
  induction r generalizing x path with
  | nil =>
    obtain rfl : x = .link target := Option.some.inj hr
    rw [visit, checkLink] at h
    split at h
    · rename_i hwithin
      rw [List.append_nil]
      exact isWithinBase_iff.mp hwithin
    · cases h
  | cons n r ih =>
    obtain ⟨y, hy, hrest⟩ := Option.bind_eq_some_iff.mp hr
    cases x with
    | file => cases hy
    | link t => cases hy
    | dir entries =>
      obtain ⟨e, he, rfl⟩ := Option.map_eq_some_iff.mp hy
      have hn : e.1 = n := by simpa using List.find?_some he
      rw [visit] at h
      have hvisit := visitAll_mem h (List.mem_of_find?_eq_some he)
      rw [hn] at hvisit
      have htarget := ih hvisit hrest
      rwa [List.append_assoc] at htarget

theorem lookup_append (x : Node) (p r : Path) :
    lookup x (p ++ r) = (lookup x p).bind fun y => lookup y r := by
  induction p generalizing x with
  | nil => rfl
  | cons n p ih =>
    show (x.entry n).bind _ = ((x.entry n).bind _).bind _
    cases x.entry n with
    | none => rfl
    | some y => exact ih y

/-- An accepted workspace has no link whose target cleans to a path outside. -/
theorem validate_link {root : Node} {p : Path} {n : Name} {target : String}
    (h : validateNoExternalSymlinks root base = .ok ()) (hbase : base <+: p ++ [n])
    (hn : lookup root (p ++ [n]) = some (.link target)) :
    base <+: clean (start target p) (components target) := by
  obtain ⟨r, hr⟩ := hbase
  rw [← hr, lookup_append] at hn
  obtain ⟨x, hx, hlink⟩ := Option.bind_eq_some_iff.mp hn
  unfold validateNoExternalSymlinks at h
  rw [hx] at h
  have htarget := visit_link h hlink
  unfold resolved at htarget
  rwa [hr, List.dropLast_concat] at htarget

end Accepted

/-! ## Containment -/

theorem clean_names (p names : Path) : clean p (names.map .name) = p ++ names := by
  induction names generalizing p with
  | nil => exact (List.append_nil p).symm
  | cons n names ih =>
    show clean (p ++ [n]) (names.map .name) = _
    rw [ih, List.append_assoc]
    rfl

/-- **Links stay in an accepted workspace**, where no `..` of their targets takes off a name
that is a link for the operating system. -/
theorem symlinks_contained {root : Node} {base : Path} {entries : List (Name × Node)}
    (hbase : lookup root base = some (.dir entries))
    (hvalid : validateNoExternalSymlinks root base = .ok ())
    (hkept : ∀ p n target, base <+: p ++ [n] → lookup root (p ++ [n]) = some (.link target) →
      LinksKept root (start target p) (components target))
    (names : Path) {q : Path} (hq : realpath root (base ++ names) = some q) : base <+: q := by
  refine (resolve_sound hq).within hbase (fun p n target hp hn =>
    ⟨validate_link hvalid hp hn, hkept p n target hp hn⟩) ?_ ?_
  · refine linksKept_of_no_up fun c hc => ?_
    obtain ⟨n, -, rfl⟩ := List.mem_map.mp hc
    exact Component.noConfusion
  · rw [clean_names]
    exact List.prefix_append base names

/-! ### A link to the workspace and its parent -/

def name (s : String) (h : s ≠ "" ∧ s ≠ "." ∧ s ≠ ".." := by decide) : Name := ⟨s, h⟩

/-- A workspace with a link to itself and another link. -/
def twoLinks (target : String) : Node :=
  .dir [(name "base", .dir [(name "a", .link "/base"), (name "b", .link target)])]

/-- The links of the tree. -/
theorem link_twoLinks {target t : String} {r : Path}
    (h : lookup (twoLinks target) r = some (.link t)) : t = "/base" ∨ t = target := by
  cases r with
  | nil => cases h
  | cons n r =>
    obtain ⟨x, hx, hrest⟩ := Option.bind_eq_some_iff.mp h
    obtain ⟨e, he, rfl⟩ := Option.map_eq_some_iff.mp hx
    obtain rfl := List.mem_singleton.mp (List.mem_of_find?_eq_some he)
    cases r with
    | nil => cases hrest
    | cons n' r =>
      obtain ⟨y, hy, hlink⟩ := Option.bind_eq_some_iff.mp hrest
      obtain ⟨e', he', rfl⟩ := Option.map_eq_some_iff.mp hy
      have hmem := List.mem_of_find?_eq_some he'
      cases r with
      | cons n'' r =>
        rcases List.mem_cons.mp hmem with rfl | hmem
        · cases hlink
        · rw [List.mem_singleton.mp hmem] at hlink
          cases hlink
      | nil =>
        rcases List.mem_cons.mp hmem with rfl | hmem
        · exact Or.inl (Node.link.inj (Option.some.inj hlink)).symm
        · rw [List.mem_singleton.mp hmem] at hlink
          exact Or.inr (Node.link.inj (Option.some.inj hlink)).symm

/-- Links to links stay in the workspace. -/
theorem symlinks_contained_twoLinks :
    realpath (twoLinks "a/a") [name "base", name "b"] = some [name "base"] ∧
      [name "base"] <+: [name "base"] := by
  have hq : realpath (twoLinks "a/a") ([name "base"] ++ [name "b"]) = some [name "base"] := by
    decide +kernel
  refine ⟨hq, symlinks_contained rfl rfl (fun p n target _ hn => linksKept_of_no_up ?_) _ hq⟩
  rcases link_twoLinks hn with rfl | rfl
  · decide +kernel
  · decide +kernel

/-- **`..` after a link leads out of the workspace.** -/
theorem symlinks_contained_fails :
    validateNoExternalSymlinks (twoLinks "a/..") [name "base"] = .ok () ∧
    realpath (twoLinks "a/..") [name "base", name "b"] = some [] ∧ ¬[name "base"] <+: [] :=
  ⟨rfl, by decide +kernel, by decide⟩

end Workspace
