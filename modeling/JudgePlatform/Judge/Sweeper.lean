/-
# The workspaces of submissions

A submission is executed in a directory `sub-…` of its own, below the directory `judge-…`
of a container (`pkg/workspace/manager.go`).  Removing one is refused for any other path,
and the sweeper removes those that have been left behind for too long.

The tree is what is below the root of all workspaces, at the path `mount`.  Removing an
entry also changes the time of the directory that it was in, which the sweeper never reads.

* `newSubmissionWorkspace`, `cleanupSubmissionWorkspace` : the two ends of a workspace.
* `sweepSubmissionWorkspaces` : the sweeper.
* `sweep_exact` : what it removes, and that no workspace is refused at its end.
-/
import JudgePlatform.Judge.SafeJoin

namespace Workspace

open FileTree UnixPath

/-! ## Creating a workspace -/

def nameChar (c : Char) : Bool := c.isAlphanum || c = '_' || c = '.' || c = '-'

/-- `workspaceNameSanitizer.ReplaceAllString(_, "_")`: a run of other characters becomes one
underscore; the flag says that such a run goes on. -/
def replaceRuns : Bool → List Char → List Char
  | _, [] => []
  | inRun, c :: cs =>
    if nameChar c then c :: replaceRuns false cs
    else if inRun then replaceRuns true cs
    else '_' :: replaceRuns true cs

def safeID (submissionID : String) : String :=
  let id := if submissionID = "" then "anonymous" else submissionID
  let safe := String.ofList (replaceRuns false id.toList)
  if safe = "" then "anonymous" else safe

/-- The name that `os.MkdirTemp` tries: the random text is put in the place of the last
star, or at the end. -/
def tempName (random pattern : String) : String :=
  let cs := pattern.toList
  if '*' ∈ cs then
    String.ofList ((cs.rdropWhile (· ≠ '*')).dropLast ++ random.toList ++ cs.rtakeWhile (· ≠ '*'))
  else pattern ++ random

def joinPath (dir name : String) : String :=
  if dir.toList.getLast? = some '/' then dir ++ name else dir ++ "/" ++ name

/-- `os.MkdirTemp`, where creating the directory succeeds. -/
def mkdirTemp (tempDir random dir pattern : String) : Except String String :=
  if '/' ∈ pattern.toList then
    .error ("mkdirtemp " ++ pattern ++ ": pattern contains path separator")
  else .ok (joinPath (if dir = "" then tempDir else dir) (tempName random pattern))

def containerWorkspaceRoot := "/app"

structure SubmissionWorkspace where
  hostPath : String
  containerPath : String

/-- `NewSubmissionWorkspace`. -/
def newSubmissionWorkspace (tempDir random containerWorkDir submissionID : String) :
    Except String SubmissionWorkspace :=
  match mkdirTemp tempDir random containerWorkDir ("sub-" ++ safeID submissionID ++ "-") with
  | .error err => .error ("create submission workspace: " ++ err)
  | .ok hostPath => .ok ⟨hostPath, UnixPath.join containerWorkspaceRoot (UnixPath.base hostPath)⟩

/-! ## The file system -/

structure System where
  /-- what the system says of the working directory -/
  getwd : Except String String
  /-- where the tree is -/
  mount : Path
  /-- the time of the last modification of a directory of the tree, in nanoseconds -/
  modTime : Path → ℤ

inductive OsError where
  | notExist
  | other
  deriving DecidableEq

/-- The path in the tree, if it is one. -/
def System.below (sys : System) (path : String) : Option Path :=
  if sys.mount <+: pathOf path then some ((pathOf path).drop sys.mount.length) else none

def System.node (sys : System) (tree : Node) (path : String) : Except OsError (Path × Node) :=
  match sys.below path with
  | none => .error .notExist
  | some p =>
    match lookup tree p with
    | none => .error .notExist
    | some x => .ok (p, x)

/-- `os.ReadDir`: the entries by name. -/
def System.readDir (sys : System) (tree : Node) (path : String) :
    Except OsError (List (Name × Node)) :=
  match sys.node tree path with
  | .error e => .error e
  | .ok (_, .dir entries) => .ok (entries.insertionSort fun e d => e.1.1 ≤ d.1.1)
  | .ok _ => .error .other

/-- The modification time that `os.Stat` finds.  It is asked for entries that are no links. -/
def System.stat (sys : System) (tree : Node) (path : String) : Except OsError ℤ :=
  match sys.node tree path with
  | .error e => .error e
  | .ok (p, _) => .ok (sys.modTime p)

/-- `os.RemoveAll`. -/
def System.removeAll (sys : System) (tree : Node) (path : String) : Node :=
  match sys.below path with
  | some p => erase p tree
  | none => tree

/-! ## Removing a workspace -/

/-- `validateSubmissionWorkspacePath`. -/
def validateSubmissionWorkspacePath (path : String) : Except String Unit :=
  let cleanPath := UnixPath.clean path
  if path = "" then .error "workspace path is required"
  else if !Text.hasPrefix (UnixPath.base cleanPath) "sub-" then
    .error ("refusing to delete non-submission workspace: " ++ cleanPath)
  else if !Text.hasPrefix (UnixPath.base (UnixPath.dir cleanPath)) "judge-" then
    .error ("refusing to delete workspace outside judge container dir: " ++ cleanPath)
  else .ok ()

/-- `CleanupSubmissionWorkspace`. -/
def cleanupSubmissionWorkspace (sys : System) (tree : Node) (path : String) :
    Except String Node :=
  match validateSubmissionWorkspacePath path with
  | .error err => .error err
  | .ok () => .ok (sys.removeAll tree path)

/-! ## The sweeper -/

inductive SweepError where
  | rootRequired
  | maxAge
  | resolve (err : String)
  | readRoot (path : String) (err : OsError)
  | join (err : PathError)
  | readContainer (path : String) (err : OsError)
  | stat (path : String) (err : OsError)
  | cleanup (err : String)

/-- `Time.Sub`, which stops at the ends of the range of a duration. -/
def timeSub (t u : ℤ) : ℤ := max (-2 ^ 63) (min (2 ^ 63 - 1) (t - u))

def isDir : Node → Bool
  | .dir _ => true
  | _ => false

/-- The tree, the number of removed workspaces, and the error that ended the sweep. -/
abbrev Swept := Node × ℕ × Option SweepError

/-- The loop over the entries of the directory of a container. -/
def sweepSubEntries (sys : System) (maxAge now : ℤ) (containerDir : String) :
    List (Name × Node) → Node → ℕ → Swept
  | [], tree, removed => (tree, removed, none)
  | (n, x) :: subEntries, tree, removed =>
    if !isDir x || !Text.hasPrefix n.1 "sub-" then
      sweepSubEntries sys maxAge now containerDir subEntries tree removed
    else
      match safeJoin sys.getwd containerDir n.1 with
      | .error err => (tree, removed, some (.join err))
      | .ok subPath =>
        match sys.stat tree subPath with
        | .error .notExist => sweepSubEntries sys maxAge now containerDir subEntries tree removed
        | .error err => (tree, removed, some (.stat subPath err))
        | .ok modTime =>
          if timeSub now modTime < maxAge then
            sweepSubEntries sys maxAge now containerDir subEntries tree removed
          else
            match cleanupSubmissionWorkspace sys tree subPath with
            | .error err => (tree, removed, some (.cleanup err))
            | .ok tree' =>
              sweepSubEntries sys maxAge now containerDir subEntries tree' (removed + 1)

/-- The loop over the entries of the root. -/
def sweepEntries (sys : System) (maxAge now : ℤ) (rootAbs : String) :
    List (Name × Node) → Node → ℕ → Swept
  | [], tree, removed => (tree, removed, none)
  | (n, x) :: entries, tree, removed =>
    if !isDir x || !Text.hasPrefix n.1 "judge-" then
      sweepEntries sys maxAge now rootAbs entries tree removed
    else
      match safeJoin sys.getwd rootAbs n.1 with
      | .error err => (tree, removed, some (.join err))
      | .ok containerDir =>
        match sys.readDir tree containerDir with
        | .error .notExist => sweepEntries sys maxAge now rootAbs entries tree removed
        | .error err => (tree, removed, some (.readContainer containerDir err))
        | .ok subEntries =>
          match sweepSubEntries sys maxAge now containerDir subEntries tree removed with
          | (tree', removed', none) => sweepEntries sys maxAge now rootAbs entries tree' removed'
          | failed => failed

/-- `SweepSubmissionWorkspaces`. -/
def sweepSubmissionWorkspaces (sys : System) (tree : Node) (root : String) (maxAge now : ℤ) :
    Swept :=
  if root = "" then (tree, 0, some .rootRequired)
  else if maxAge ≤ 0 then (tree, 0, some .maxAge)
  else
    match UnixPath.abs sys.getwd root with
    | .error err => (tree, 0, some (.resolve err))
    | .ok rootAbs =>
      match sys.readDir tree rootAbs with
      | .error .notExist => (tree, 0, none)
      | .error err => (tree, 0, some (.readRoot rootAbs err))
      | .ok entries => sweepEntries sys maxAge now rootAbs entries tree 0

/-! ## Names below a directory -/

section Names

variable {n : Name}

theorem components_name (hn : Plain (.name n)) : components n.1 = [.name n] := by
  have hslash : '/' ∉ n.1.toList := hn
  have hspell : component (String.ofList n.1.toList) = .name n := component_spell (.name n)
  unfold components
  rw [List.splitOn_eq_singleton hslash, List.map_singleton, hspell]

/-- The path of an entry of a directory. -/
theorem normal_entry {dir : String} (hdir : dir ≠ "") (hn : Plain (.name n)) :
    normal (dir ++ "/" ++ n.1) = normal dir ++ [.name n] := by
  rw [normal_append hdir, components_name hn, reduce, reduce, List.reverse_cons,
    List.reverse_reverse]

theorem isAbs_name (hn : Plain (.name n)) : isAbs n.1 = false := by
  unfold isAbs
  apply decide_eq_false
  intro h
  exact hn (List.mem_of_mem_head? h)

/-- Joining the name of an entry to an absolute directory. -/
theorem safeJoin_entry (getwd : Except String String) {dir : String} (hdir : isAbs dir = true)
    (hn : Plain (.name n)) :
    ∃ target, safeJoin getwd dir n.1 = .ok target ∧ isAbs target = true ∧
      pathOf target = pathOf dir ++ [n] ∧ normal target = normal dir ++ [.name n] := by
  have hne := ne_empty_of_isAbs hdir
  have habs : isAbs (dir ++ "/" ++ n.1) = true := (isAbs_append hne n.1).trans hdir
  have hpath : pathOf (dir ++ "/" ++ n.1) = pathOf dir ++ [n] := by
    apply map_name_injective
    rw [← normal_eq_pathOf habs, normal_entry hne hn, normal_eq_pathOf hdir, List.map_append]
    rfl
  refine ⟨_, ?_, (isAbs_clean _).trans habs, (pathOf_clean habs).trans hpath, ?_⟩
  · rw [safeJoin_eq getwd hdir (isAbs_name hn), hpath, if_pos (List.prefix_append _ _)]
  · rw [normal_clean, normal_entry hne hn]

theorem Reduced.init {rooted : Bool} {cs : List Component}
    (h : Reduced rooted (cs ++ [.name n])) : Reduced rooted cs := by
  obtain ⟨k, names, heq, hk⟩ := h
  rcases List.eq_nil_or_concat names with rfl | ⟨front, m, rfl⟩
  · rw [List.map_nil, List.append_nil] at heq
    have hmem : Component.name n ∈ List.replicate k Component.up := heq ▸ by simp
    cases List.eq_of_mem_replicate hmem
  · rw [List.concat_eq_append, List.map_append, ← List.append_assoc] at heq
    exact ⟨k, front, (List.append_inj' heq rfl).1, hk⟩

/-- **Which paths are accepted for removal**: entries `sub-…` of directories `judge-…`. -/
theorem validate_of_normal {path : String} {cs : List Component} {d : Component}
    (hpath : path ≠ "") (hnormal : normal path = cs ++ [d] ++ [.name n])
    (hn : Text.hasPrefix n.1 "sub-" = true)
    (hd : Text.hasPrefix (String.ofList (spell d)) "judge-" = true) :
    validateSubmissionWorkspacePath path = .ok () := by
  have hplain : ∀ c ∈ cs ++ [d] ++ [.name n], Plain c := fun c hc => plain_normal (hnormal ▸ hc)
  have hreduced : Reduced (isAbs path) (cs ++ [d]) :=
    Reduced.init (hnormal ▸ reduced_normal path)
  have hname : Plain (.name n) := hplain _ (by simp)
  have hbase : UnixPath.base (UnixPath.clean path) = n.1 := by
    unfold UnixPath.clean
    rw [hnormal, base_format hname]
    exact String.ofList_toList
  have hparent : UnixPath.base (UnixPath.dir (UnixPath.clean path)) = String.ofList (spell d) := by
    unfold UnixPath.clean
    rw [hnormal, dir_format hname (fun c hc => hplain c (List.mem_append_left _ hc)) hreduced,
      base_format (hplain d (by simp))]
  unfold validateSubmissionWorkspacePath
  simp only [if_neg hpath, hbase, hparent, hn, hd, Bool.not_true, Bool.false_eq_true, if_false]

end Names

/-! ## What the sweeper removes -/

/-- An entry `sub-…` of a directory `judge-…`, itself a directory, that is as old as `maxAge`.
No link is followed for it. -/
def Stale (sys : System) (tree : Node) (root : Path) (maxAge now : ℤ) (p : Path) : Prop :=
  ∃ c s : Name, p = root ++ [c] ++ [s] ∧ Text.hasPrefix c.1 "judge-" = true ∧
    Text.hasPrefix s.1 "sub-" = true ∧ kindAt tree p = some .dir ∧ maxAge ≤ now - sys.modTime p

/-- The names of a directory are all different, and have no slashes. -/
def Proper (tree : Node) : Prop :=
  ∀ p entries, lookup tree p = some (.dir entries) →
    (entries.map Prod.fst).Nodup ∧ ∀ e ∈ entries, Plain (.name e.1)

def staleEntry (sys : System) (maxAge now : ℤ) (container : Path) (e : Name × Node) : Bool :=
  isDir e.2 && Text.hasPrefix e.1.1 "sub-" &&
    decide (maxAge ≤ now - sys.modTime (container ++ [e.1]))

/-- The workspaces that are removed from the directory of a container. -/
def staleSubEntries (sys : System) (maxAge now : ℤ) (container : Path)
    (entries : List (Name × Node)) : List Path :=
  (entries.filter (staleEntry sys maxAge now container)).map fun e => container ++ [e.1]

/-- The workspaces that are removed for an entry of the root. -/
def staleBelow (sys : System) (maxAge now : ℤ) (root : Path) : Name × Node → List Path
  | (n, .dir subEntries) =>
    if Text.hasPrefix n.1 "judge-" then
      staleSubEntries sys maxAge now (root ++ [n])
        (subEntries.insertionSort fun e d => e.1.1 ≤ d.1.1)
    else []
  | _ => []

section Sweeping

variable {sys : System} {maxAge now : ℤ} {tree : Node} {p : Path} {path : String}

theorem node_eq {x : Node} (hpath : pathOf path = sys.mount ++ p) (hx : lookup tree p = some x) :
    sys.node tree path = .ok (p, x) := by
  unfold System.node System.below
  rw [hpath, if_pos (List.prefix_append _ _), List.drop_left]
  simp only [hx]

theorem stat_eq {x : Node} (hpath : pathOf path = sys.mount ++ p) (hx : lookup tree p = some x) :
    sys.stat tree path = .ok (sys.modTime p) := by
  unfold System.stat
  rw [node_eq hpath hx]

theorem readDir_eq {entries : List (Name × Node)} (hpath : pathOf path = sys.mount ++ p)
    (hx : lookup tree p = some (.dir entries)) :
    sys.readDir tree path = .ok (entries.insertionSort fun e d => e.1.1 ≤ d.1.1) := by
  unfold System.readDir
  rw [node_eq hpath hx]

theorem removeAll_eq (hpath : pathOf path = sys.mount ++ p) :
    sys.removeAll tree path = erase p tree := by
  unfold System.removeAll System.below
  rw [hpath, if_pos (List.prefix_append _ _), List.drop_left]

/-- Being cut off at the ends of a duration makes no difference to a comparison inside. -/
theorem timeSub_lt {t u : ℤ} (hpos : 0 < maxAge) (hmax : maxAge < 2 ^ 63) :
    timeSub t u < maxAge ↔ t - u < maxAge := by
  unfold timeSub
  omega

theorem apart_of_ne {n m : Name} (h : n ≠ m) : ¬p ++ [n] <+: p ++ [m] := by
  rw [List.prefix_append_right_inj]
  intro hprefix
  exact h (by simpa using hprefix)

theorem staleSubEntries_cons (container : Path) (e : Name × Node) (entries : List (Name × Node)) :
    staleSubEntries sys maxAge now container (e :: entries) =
      (if staleEntry sys maxAge now container e then [container ++ [e.1]] else []) ++
        staleSubEntries sys maxAge now container entries := by
  unfold staleSubEntries
  rw [List.filter_cons]
  split_ifs <;> rfl

/-- **The loop over the directory of a container.** -/
theorem sweepSubEntries_eq (hpos : 0 < maxAge) (hmax : maxAge < 2 ^ 63) {containerDir : String}
    {container : Path} {c : Name} {cs : List Component} (habs : isAbs containerDir = true)
    (hpath : pathOf containerDir = sys.mount ++ container)
    (hnormal : normal containerDir = cs ++ [.name c])
    (hjudge : Text.hasPrefix c.1 "judge-" = true) {entries : List (Name × Node)}
    (hnodup : (entries.map Prod.fst).Nodup) (hplain : ∀ e ∈ entries, Plain (.name e.1))
    (hentries : ∀ e ∈ entries, lookup tree (container ++ [e.1]) = some e.2) (removed : ℕ) :
    sweepSubEntries sys maxAge now containerDir entries tree removed =
      (eraseAll (staleSubEntries sys maxAge now container entries) tree,
        removed + (staleSubEntries sys maxAge now container entries).length, none) := by
  induction entries generalizing tree removed with
  | nil => rfl
  | cons e entries ih =>
    obtain ⟨n, x⟩ := e
    rw [List.map_cons, List.nodup_cons] at hnodup
    obtain ⟨hn, hrest⟩ := List.forall_mem_cons.mp hplain
    obtain ⟨hx, hothers⟩ := List.forall_mem_cons.mp hentries
    rw [staleSubEntries_cons]
    unfold staleEntry
    rw [sweepSubEntries, ← Bool.not_and]
    cases hsub : isDir x && Text.hasPrefix n.1 "sub-" with
    | true =>
      obtain ⟨target, hjoin, hisAbs, hpathOf, hnormalOf⟩ := safeJoin_entry sys.getwd habs hn
      have htarget : pathOf target = sys.mount ++ (container ++ [n]) := by
        rw [hpathOf, hpath, List.append_assoc]
      have hvalid : validateSubmissionWorkspacePath target = .ok () := by
        apply validate_of_normal (ne_empty_of_isAbs hisAbs) (hnormal ▸ hnormalOf)
          (Bool.and_eq_true_iff.mp hsub).2
        show Text.hasPrefix (String.ofList c.1.toList) "judge-" = true
        rw [String.ofList_toList]
        exact hjudge
      simp only [Bool.not_true, Bool.false_eq_true, if_false, hjoin, stat_eq htarget hx,
        Bool.true_and, decide_eq_true_eq, timeSub_lt hpos hmax]
      by_cases hage : maxAge ≤ now - sys.modTime (container ++ [n])
      · -- the workspace goes, and the other entries stay as they are
        have hkeep : ∀ e ∈ entries,
            lookup (erase (container ++ [n]) tree) (container ++ [e.1]) = some e.2 := by
          intro e he
          have hne : n ≠ e.1 := by
            rintro rfl
            exact hnodup.1 (List.mem_map.mpr ⟨e, he, rfl⟩)
          rw [lookup_erase_of_apart (apart_of_ne hne) (apart_of_ne hne.symm)]
          exact hothers e he
        unfold cleanupSubmissionWorkspace
        rw [if_neg (not_lt.mpr hage), if_pos hage, hvalid]
        simp only [removeAll_eq htarget]
        rw [ih hnodup.2 hrest hkeep, List.singleton_append, List.length_cons, Nat.add_right_comm]
        rfl
      · rw [if_pos (not_le.mp hage), if_neg hage, List.nil_append]
        exact ih hnodup.2 hrest hothers removed
    | false =>
      simp only [Bool.not_false, if_true, Bool.false_and, Bool.false_eq_true, if_false,
        List.nil_append]
      exact ih hnodup.2 hrest hothers removed

/-- The entries of a directory, in the order of their names. -/
theorem entries_of_proper (hproper : Proper tree) {entries : List (Name × Node)}
    (hdir : lookup tree p = some (.dir entries)) :
    ((entries.insertionSort fun e d => e.1.1 ≤ d.1.1).map Prod.fst).Nodup ∧
      ∀ e ∈ entries.insertionSort fun e d => e.1.1 ≤ d.1.1,
        Plain (.name e.1) ∧ lookup tree (p ++ [e.1]) = some e.2 := by
  obtain ⟨hnodup, hplain⟩ := hproper p entries hdir
  have hperm := List.perm_insertionSort (fun e d : Name × Node => e.1.1 ≤ d.1.1) entries
  refine ⟨(hperm.map Prod.fst).nodup_iff.mpr hnodup, fun e he => ?_⟩
  have hmem := hperm.mem_iff.mp he
  refine ⟨hplain e hmem, ?_⟩
  rw [lookup_append, hdir, Option.bind_some, lookup_cons, entry_of_mem hnodup hmem]
  rfl

theorem mem_staleSubEntries {container : Path} {entries : List (Name × Node)} {r : Path} :
    r ∈ staleSubEntries sys maxAge now container entries ↔
      ∃ e ∈ entries, staleEntry sys maxAge now container e = true ∧ r = container ++ [e.1] := by
  unfold staleSubEntries
  rw [List.mem_map]
  constructor
  · rintro ⟨e, he, rfl⟩
    obtain ⟨hmem, hstale⟩ := List.mem_filter.mp he
    exact ⟨e, hmem, hstale, rfl⟩
  · rintro ⟨e, hmem, hstale, rfl⟩
    exact ⟨e, List.mem_filter.mpr ⟨hmem, hstale⟩, rfl⟩

/-- What is removed for an entry lies in it. -/
theorem staleBelow_eq {root r : Path} {e : Name × Node}
    (h : r ∈ staleBelow sys maxAge now root e) : ∃ s, r = root ++ [e.1] ++ [s] := by
  obtain ⟨n, x⟩ := e
  cases x with
  | file => cases h
  | link target => cases h
  | dir subEntries =>
    rw [staleBelow] at h
    split_ifs at h
    · obtain ⟨d, -, -, rfl⟩ := mem_staleSubEntries.mp h
      exact ⟨d.1, rfl⟩
    · cases h

theorem Proper.below (hproper : Proper tree) {x : Node} (hx : lookup tree p = some x) :
    Proper x := by
  intro q entries hq
  apply hproper (p ++ q) entries
  rw [lookup_append, hx, Option.bind_some]
  exact hq

/-- What is below one entry of a directory is apart from what is below another one. -/
theorem apart_below {root : Path} {n m : Name} (h : n ≠ m) (q : Path) :
    ¬root ++ [n] ++ q <+: root ++ [m] ∧ ¬root ++ [m] <+: root ++ [n] ++ q := by
  rw [List.append_assoc, List.prefix_append_right_inj, List.prefix_append_right_inj,
    List.singleton_append, List.cons_prefix_cons, List.cons_prefix_cons]
  exact ⟨fun hprefix => h hprefix.1, fun hprefix => h hprefix.1.symm⟩

/-- **The loop over the root.** -/
theorem sweepEntries_eq (hpos : 0 < maxAge) (hmax : maxAge < 2 ^ 63) {rootAbs : String}
    {root : Path} (habs : isAbs rootAbs = true) (hpath : pathOf rootAbs = sys.mount ++ root)
    {entries : List (Name × Node)} (hnodup : (entries.map Prod.fst).Nodup)
    (hplain : ∀ e ∈ entries, Plain (.name e.1)) (hproper : ∀ e ∈ entries, Proper e.2)
    (hentries : ∀ e ∈ entries, lookup tree (root ++ [e.1]) = some e.2) (removed : ℕ) :
    sweepEntries sys maxAge now rootAbs entries tree removed =
      (eraseAll (entries.flatMap (staleBelow sys maxAge now root)) tree,
        removed + (entries.flatMap (staleBelow sys maxAge now root)).length, none) := by
  induction entries generalizing tree removed with
  | nil => rfl
  | cons e entries ih =>
    obtain ⟨n, x⟩ := e
    rw [List.map_cons, List.nodup_cons] at hnodup
    obtain ⟨hn, hplains⟩ := List.forall_mem_cons.mp hplain
    obtain ⟨hx, hpropers⟩ := List.forall_mem_cons.mp hproper
    obtain ⟨hat, hothers⟩ := List.forall_mem_cons.mp hentries
    rw [List.flatMap_cons, sweepEntries]
    -- an entry that the sweeper passes over
    have hskip : staleBelow sys maxAge now root (n, x) = [] →
        sweepEntries sys maxAge now rootAbs entries tree removed =
          (eraseAll (staleBelow sys maxAge now root (n, x) ++
              entries.flatMap (staleBelow sys maxAge now root)) tree,
            removed + (staleBelow sys maxAge now root (n, x) ++
              entries.flatMap (staleBelow sys maxAge now root)).length, none) := by
      intro hnone
      rw [hnone, List.nil_append]
      exact ih hnodup.2 hplains hpropers hothers removed
    cases x with
    | file => exact hskip rfl
    | link target => exact hskip rfl
    | dir subEntries =>
      cases hjudge : Text.hasPrefix n.1 "judge-" with
      | false =>
        apply hskip
        rw [staleBelow, hjudge, if_neg Bool.false_ne_true]
      | true =>
        obtain ⟨containerDir, hjoin, hisAbs, hpathOf, hnormal⟩ := safeJoin_entry sys.getwd habs hn
        rw [hpath, List.append_assoc] at hpathOf
        obtain ⟨hsubNodup, hsub⟩ := @entries_of_proper (.dir subEntries) [] hx subEntries rfl
        -- the loop over the directory of this container
        have hat' : ∀ d ∈ subEntries.insertionSort fun e d => e.1.1 ≤ d.1.1,
            lookup tree (root ++ [n] ++ [d.1]) = some d.2 := by
          intro d hd
          rw [lookup_append, hat, Option.bind_some]
          exact (hsub d hd).2
        have hloop : sweepSubEntries sys maxAge now containerDir _ tree removed = _ :=
          sweepSubEntries_eq hpos hmax hisAbs hpathOf hnormal hjudge hsubNodup
            (fun d hd => (hsub d hd).1) hat' removed
        -- the other entries are as they were
        have hkeep : ∀ e ∈ entries,
            lookup (eraseAll (staleSubEntries sys maxAge now (root ++ [n])
              (subEntries.insertionSort fun e d => e.1.1 ≤ d.1.1)) tree) (root ++ [e.1]) =
                some e.2 := by
          intro e he
          rw [lookup_eraseAll_of_apart]
          · exact hothers e he
          · intro r hr
            obtain ⟨d, -, -, rfl⟩ := mem_staleSubEntries.mp hr
            apply apart_below
            rintro rfl
            exact hnodup.1 (List.mem_map.mpr ⟨e, he, rfl⟩)
        have hgo : (!isDir (.dir subEntries) || !true) = false := rfl
        rw [staleBelow, hjudge, if_pos rfl, eraseAll_append]
        simp only [hgo, Bool.false_eq_true, if_false, hjoin, readDir_eq hpathOf hat, hloop]
        rw [ih hnodup.2 hplains hpropers hkeep, List.length_append, Nat.add_assoc]

theorem isDir_iff {x : Node} : isDir x = true ↔ x.kind = .dir := by
  cases x with
  | file => exact iff_of_false Bool.false_ne_true Kind.noConfusion
  | link target => exact iff_of_false Bool.false_ne_true Kind.noConfusion
  | dir entries => exact iff_of_true rfl rfl

/-- **The removed workspaces are the stale ones.** -/
theorem mem_stale {root r : Path} {entries : List (Name × Node)} (hproper : Proper tree)
    (hroot : lookup tree root = some (.dir entries)) :
    r ∈ (entries.insertionSort fun e d => e.1.1 ≤ d.1.1).flatMap
        (staleBelow sys maxAge now root) ↔ Stale sys tree root maxAge now r := by
  rw [List.mem_flatMap]
  constructor
  · rintro ⟨⟨c, x⟩, hc, hr⟩
    have hx := ((entries_of_proper hproper hroot).2 _ hc).2
    cases x with
    | file => cases hr
    | link target => cases hr
    | dir subEntries =>
      rw [staleBelow] at hr
      split_ifs at hr with hjudge
      · obtain ⟨⟨s, y⟩, hs, hstale, rfl⟩ := mem_staleSubEntries.mp hr
        have hy := ((entries_of_proper hproper hx).2 _ hs).2
        unfold staleEntry at hstale
        rw [Bool.and_eq_true, Bool.and_eq_true, decide_eq_true_eq] at hstale
        refine ⟨c, s, rfl, hjudge, hstale.1.2, ?_, hstale.2⟩
        unfold kindAt
        rw [hy, Option.map_some, isDir_iff.mp hstale.1.1]
      · cases hr
  · rintro ⟨c, s, rfl, hjudge, hsub, hkind, hage⟩
    obtain ⟨y, hy, hdir⟩ := Option.map_eq_some_iff.mp hkind
    rw [lookup_append, lookup_append, hroot, Option.bind_some] at hy
    obtain ⟨x, hx, hxy⟩ := Option.bind_eq_some_iff.mp hy
    rw [lookup_cons] at hx hxy
    obtain ⟨x', hx', hxx⟩ := Option.bind_eq_some_iff.mp hx
    obtain ⟨y', hy', hyy⟩ := Option.bind_eq_some_iff.mp hxy
    obtain rfl := Option.some.inj hxx
    obtain rfl := Option.some.inj hyy
    refine ⟨(c, x'), (List.perm_insertionSort _ _).mem_iff.mpr (mem_of_entry hx'), ?_⟩
    cases x' with
    | file => cases hy'
    | link target => cases hy'
    | dir subEntries =>
      rw [staleBelow, if_pos hjudge, mem_staleSubEntries]
      refine ⟨(s, y'), (List.perm_insertionSort _ _).mem_iff.mpr (mem_of_entry hy'), ?_, rfl⟩
      unfold staleEntry
      rw [isDir_iff.mpr hdir, hsub, decide_eq_true hage]
      rfl

theorem nodup_staleSubEntries {container : Path} {entries : List (Name × Node)}
    (hnodup : (entries.map Prod.fst).Nodup) :
    (staleSubEntries sys maxAge now container entries).Nodup := by
  have hinjective : Function.Injective fun n : Name => container ++ [n] := by
    intro n m h
    simpa using h
  have hmap : staleSubEntries sys maxAge now container entries =
      ((entries.filter (staleEntry sys maxAge now container)).map Prod.fst).map
        fun n => container ++ [n] := by
    rw [List.map_map]
    rfl
  rw [hmap]
  apply List.Nodup.map hinjective
  exact hnodup.sublist (List.filter_sublist.map _)

theorem nodup_stale {root : Path} {entries : List (Name × Node)} (hproper : Proper tree)
    (hroot : lookup tree root = some (.dir entries)) :
    ((entries.insertionSort fun e d => e.1.1 ≤ d.1.1).flatMap
      (staleBelow sys maxAge now root)).Nodup := by
  obtain ⟨hnodup, hentries⟩ := entries_of_proper hproper hroot
  rw [List.nodup_flatMap]
  constructor
  · rintro ⟨c, x⟩ hc
    cases x with
    | file => exact List.nodup_nil
    | link target => exact List.nodup_nil
    | dir subEntries =>
      rw [staleBelow]
      split_ifs
      · exact nodup_staleSubEntries (entries_of_proper hproper (hentries _ hc).2).1
      · exact List.nodup_nil
  · refine (List.pairwise_map.mp hnodup).imp fun {e d} hne r he hd => hne ?_
    obtain ⟨s, hs⟩ := staleBelow_eq he
    obtain ⟨s', hs'⟩ := staleBelow_eq hd
    rw [hs] at hs'
    simpa using (List.append_inj' hs' rfl).1

end Sweeping

/-! ## What is created is accepted -/

section Creating

theorem nameChar_replaceRuns {inRun : Bool} {cs : List Char} {c : Char}
    (h : c ∈ replaceRuns inRun cs) : nameChar c = true := by
  induction cs generalizing inRun with
  | nil => exact absurd h List.not_mem_nil
  | cons d cs ih =>
    rw [replaceRuns] at h
    split_ifs at h with hd hrun
    · rcases List.mem_cons.mp h with rfl | h
      · exact hd
      · exact ih h
    · exact ih h
    · rcases List.mem_cons.mp h with rfl | h
      · decide
      · exact ih h

theorem nameChar_safeID {id : String} {c : Char} (h : c ∈ (safeID id).toList) :
    nameChar c = true := by
  have hanonymous : "anonymous".toList.all nameChar = true := by decide
  unfold safeID at h
  simp only at h
  generalize hsafe : String.ofList (replaceRuns false
    (if id = "" then "anonymous" else id).toList) = safe at h
  split_ifs at h
  · exact List.all_eq_true.mp hanonymous c h
  · rw [← hsafe, String.toList_ofList] at h
    exact nameChar_replaceRuns h

/-- No character of the pattern has a meaning to `os.MkdirTemp`. -/
theorem nameChar_pattern {id : String} {c : Char}
    (h : c ∈ ("sub-" ++ safeID id ++ "-").toList) : nameChar c = true := by
  rw [String.toList_append, String.toList_append, List.mem_append, List.mem_append] at h
  have hsub : "sub-".toList.all nameChar = true := by decide
  have hend : "-".toList.all nameChar = true := by decide
  rcases h with (h | h) | h
  · exact List.all_eq_true.mp hsub c h
  · exact nameChar_safeID h
  · exact List.all_eq_true.mp hend c h

theorem hasPrefix_append (p s : String) : Text.hasPrefix (p ++ s) p = true := by
  unfold Text.hasPrefix
  rw [String.toList_append]
  exact List.isPrefixOf_iff_prefix.mpr (List.prefix_append _ _)

theorem normal_joinPath {dir : String} {n : Name} {cs : List Component} {d : Component}
    (hdir : normal dir = cs ++ [d]) (hn : Plain (.name n)) :
    normal (joinPath dir n.1) = normal dir ++ [.name n] := by
  unfold joinPath
  split_ifs with hslash
  · -- the slash at the end is the one before the name
    obtain ⟨front, hfront⟩ := List.getLast?_eq_some_iff.mp hslash
    have heq : dir = String.ofList front ++ "/" ++ "" := by
      rw [← String.toList_inj]
      simp [hfront]
    have hempty : components "" = [.here] := by decide
    by_cases hne : String.ofList front = ""
    · rw [hne] at heq
      rw [heq] at hdir
      have hroot : normal ("" ++ "/" ++ "") = [] := by decide
      rw [hroot] at hdir
      exact absurd hdir (by simp)
    · have hparent : normal dir = normal (String.ofList front) := by
        rw [heq, normal_append hne, hempty, reduce, reduce, List.reverse_reverse]
      have hchild : dir ++ n.1 = String.ofList front ++ "/" ++ n.1 := by
        rw [heq, String.append_empty]
      rw [hchild, normal_entry hne hn, hparent]
  · apply normal_entry _ hn
    rintro rfl
    have hnil : normal "" = [] := by decide
    rw [hnil] at hdir
    exact absurd hdir (by simp)

/-- **No workspace is refused at its end.** -/
theorem newSubmissionWorkspace_accepted {tempDir random containerWorkDir : String}
    (hdir : Text.hasPrefix (UnixPath.base (UnixPath.clean containerWorkDir)) "judge-" = true)
    (hrandom : '/' ∉ random.toList) (submissionID : String) :
    ∃ ws, newSubmissionWorkspace tempDir random containerWorkDir submissionID = .ok ws ∧
      ∀ sys tree, cleanupSubmissionWorkspace sys tree ws.hostPath =
        .ok (sys.removeAll tree ws.hostPath) := by
  have hpattern : ∀ c, nameChar c = false →
      c ∉ ("sub-" ++ safeID submissionID ++ "-").toList := by
    intro c hc hmem
    rw [nameChar_pattern hmem] at hc
    cases hc
  have hslash := hpattern '/' (by decide)
  have hstar := hpattern '*' (by decide)
  obtain ⟨child, hchild⟩ : ∃ child : Name,
      child.1 = "sub-" ++ safeID submissionID ++ "-" ++ random := by
    refine ⟨⟨_, ?_, ?_, ?_⟩, rfl⟩ <;>
      exact fun h => absurd (congrArg (Text.hasPrefix · "sub-") h) (by
        rw [String.append_assoc, String.append_assoc, hasPrefix_append]
        decide)
  have hsub : Text.hasPrefix child.1 "sub-" = true := by
    rw [hchild, String.append_assoc, String.append_assoc, hasPrefix_append]
  have hplain : Plain (.name child) := by
    show '/' ∉ child.1.toList
    rw [hchild, String.toList_append, List.mem_append, not_or]
    exact ⟨hslash, hrandom⟩
  have hne : containerWorkDir ≠ "" := by
    rintro rfl
    exact absurd hdir (by decide)
  have hnew : newSubmissionWorkspace tempDir random containerWorkDir submissionID =
      .ok ⟨joinPath containerWorkDir child.1, UnixPath.join containerWorkspaceRoot
        (UnixPath.base (joinPath containerWorkDir child.1))⟩ := by
    unfold newSubmissionWorkspace mkdirTemp tempName
    simp only [if_neg hslash, if_neg hne, if_neg hstar, hchild]
  refine ⟨_, hnew, fun sys tree => ?_⟩
  -- the last component of the directory is what its name says
  have hbase : ∃ cs d, normal containerWorkDir = cs ++ [d] ∧
      Text.hasPrefix (String.ofList (spell d)) "judge-" = true := by
    unfold UnixPath.clean at hdir
    rcases List.eq_nil_or_concat (normal containerWorkDir) with hnil | ⟨cs, d, hcs⟩
    · rw [hnil] at hdir
      cases habs : isAbs containerWorkDir <;> rw [habs] at hdir <;> exact absurd hdir (by decide)
    · rw [List.concat_eq_append] at hcs
      have hlast : d ∈ normal containerWorkDir := by
        rw [hcs]
        exact List.mem_append_right cs List.mem_cons_self
      rw [hcs, base_format (plain_normal hlast)] at hdir
      exact ⟨cs, d, hcs, hdir⟩
  obtain ⟨cs, d, hcs, hd⟩ := hbase
  have hhost : joinPath containerWorkDir child.1 ≠ "" := by
    unfold joinPath
    split_ifs <;> exact fun h => hne (by simp_all)
  have hvalid := validate_of_normal hhost (hcs ▸ normal_joinPath hcs hplain) hsub hd
  unfold cleanupSubmissionWorkspace
  rw [hvalid]

end Creating

/-! ## The sweep -/

theorem isAbs_abs {getwd : Except String String} {root rootAbs : String}
    (hgetwd : ∀ wd, getwd = .ok wd → isAbs wd = true)
    (habs : UnixPath.abs getwd root = .ok rootAbs) : isAbs rootAbs = true := by
  unfold UnixPath.abs at habs
  split_ifs at habs with hroot
  · obtain rfl := Except.ok.inj habs
    exact (isAbs_clean root).trans hroot
  · cases hwd : getwd with
    | error err =>
      rw [hwd] at habs
      cases habs
    | ok wd =>
      rw [hwd] at habs
      obtain rfl := Except.ok.inj habs
      have hisAbs := hgetwd wd hwd
      have hne := ne_empty_of_isAbs hisAbs
      show isAbs (UnixPath.join wd root) = true
      unfold UnixPath.join
      rw [if_pos hne, isAbs_clean, isAbs_append hne]
      exact hisAbs

/-- **A sweep removes the stale workspaces and nothing else**, where every operation on the
files succeeds; and no workspace that was created for a submission is refused at its end. -/
theorem sweep_exact (sys : System) (tree : Node) (root : String) (maxAge now : ℤ)
    {rootAbs : String} {rootPath : Path} {entries : List (Name × Node)}
    (hproper : Proper tree) (hroot : root ≠ "")
    (hgetwd : ∀ wd, sys.getwd = .ok wd → isAbs wd = true)
    (habs : UnixPath.abs sys.getwd root = .ok rootAbs)
    (hpath : pathOf rootAbs = sys.mount ++ rootPath)
    (hdir : lookup tree rootPath = some (.dir entries)) (hpos : 0 < maxAge)
    (hmax : maxAge < 2 ^ 63) :
    (∃ (tree' : Node) (stale : List Path), sweepSubmissionWorkspaces sys tree root maxAge now =
          (tree', stale.length, none) ∧
      stale.Nodup ∧ (∀ p, p ∈ stale ↔ Stale sys tree rootPath maxAge now p) ∧
      ∀ p, kindAt tree' p = if ∃ r ∈ stale, r <+: p then none else kindAt tree p) ∧
    ∀ tempDir random containerWorkDir submissionID : String,
      Text.hasPrefix (UnixPath.base (UnixPath.clean containerWorkDir)) "judge-" = true →
      '/' ∉ random.toList →
      ∃ ws, newSubmissionWorkspace tempDir random containerWorkDir submissionID = .ok ws ∧
        ∀ sys tree, cleanupSubmissionWorkspace sys tree ws.hostPath =
          .ok (sys.removeAll tree ws.hostPath) := by
  constructor
  · have hisAbs := isAbs_abs hgetwd habs
    obtain ⟨hnodup, hentries⟩ := entries_of_proper hproper hdir
    let stale := (entries.insertionSort fun e d => e.1.1 ≤ d.1.1).flatMap
      (staleBelow sys maxAge now rootPath)
    have hloop : sweepEntries sys maxAge now rootAbs _ tree 0 =
        (eraseAll stale tree, 0 + stale.length, none) :=
      sweepEntries_eq hpos hmax hisAbs hpath hnodup (fun e he => (hentries e he).1)
        (fun e he => hproper.below (hentries e he).2) (fun e he => (hentries e he).2) 0
    refine ⟨eraseAll stale tree, stale, ?_, nodup_stale hproper hdir,
      fun p => mem_stale hproper hdir, fun p => ?_⟩
    · unfold sweepSubmissionWorkspaces
      rw [if_neg hroot, if_neg (not_le.mpr hpos), habs]
      simp only [readDir_eq hpath hdir]
      rw [hloop, Nat.zero_add]
    · apply kindAt_eraseAll
      intro r hr
      obtain ⟨e, -, he⟩ := List.mem_flatMap.mp hr
      obtain ⟨s, rfl⟩ := staleBelow_eq he
      simp
  · intro tempDir random containerWorkDir submissionID hjudge hrandom
    exact newSubmissionWorkspace_accepted hjudge hrandom submissionID

theorem proper_dir {entries : List (Name × Node)} (hnodup : (entries.map Prod.fst).Nodup)
    (hplain : ∀ e ∈ entries, Plain (.name e.1)) (hbelow : ∀ e ∈ entries, Proper e.2) :
    Proper (.dir entries) := by
  intro p es hes
  cases p with
  | nil =>
    obtain rfl := Node.dir.inj (Option.some.inj hes)
    exact ⟨hnodup, hplain⟩
  | cons n p =>
    rw [lookup_cons] at hes
    obtain ⟨y, hy, hrest⟩ := Option.bind_eq_some_iff.mp hes
    exact hbelow _ (mem_of_entry hy) p es hrest

/-- A container with a fresh workspace, an old one, and a link. -/
def threeSubs : Node :=
  .dir [(name "judge-1", .dir [(name "sub-new", .dir []), (name "sub-old", .dir []),
    (name "sub-link", .link "sub-old")])]

theorem proper_threeSubs : Proper threeSubs := by
  have hlink : Proper (.link "sub-old") := by
    intro p entries hp
    cases p <;> cases hp
  have hempty : Proper (.dir []) := proper_dir (by decide) (by simp) (by simp)
  refine proper_dir (by decide) (by unfold Plain; decide) fun e he => ?_
  obtain rfl := List.mem_singleton.mp he
  refine proper_dir (by decide) (by unfold Plain; decide) fun e he => ?_
  simp only [List.mem_cons, List.not_mem_nil, or_false] at he
  rcases he with rfl | rfl | rfl
  · exact hempty
  · exact hempty
  · exact hlink

/-- The times of the three, of which the second one is old. -/
def threeTimes : System where
  getwd := .ok "/"
  mount := [name "w"]
  modTime p := if p = [name "judge-1", name "sub-old"] then 3 else 9

theorem sweep_exact_threeSubs :
    ∃ tree' removed, sweepSubmissionWorkspaces threeTimes threeSubs "w/" 5 10 =
      (tree', removed, none) := by
  have hgetwd : ∀ wd, threeTimes.getwd = .ok wd → isAbs wd = true := by
    rintro wd ⟨⟩
    decide
  have habs : UnixPath.abs threeTimes.getwd "w/" = .ok "/w" := by decide +kernel
  have hpath : pathOf "/w" = threeTimes.mount ++ [] := by decide +kernel
  have hsweep := (sweep_exact threeTimes threeSubs "w/" 5 10 proper_threeSubs (by decide)
    hgetwd habs hpath rfl (by decide) (by decide)).1
  obtain ⟨tree', stale, hstale, -⟩ := hsweep
  exact ⟨tree', stale.length, hstale⟩

end Workspace
