/-
# Joining paths safely

`SafeJoin` (`pkg/workspace/safety.go`) joins a name to a directory and refuses what would
leave it.  The check `isWithinBase` looks at the text of the way from the directory to the
result: it may not start with `..`.

* `pathOf` : the names that an absolute path leads through, once its `.` and `..` are taken
  into account.
* `isWithinBaseText_iff` : the check on texts is a check on these names.
* `safeJoin_iff` : when a name can be joined, and what the result is.
-/
import JudgePlatform.Judge.Workspace
import JudgePlatform.Library.Text
import JudgePlatform.Library.UnixPath

namespace Workspace

open FileTree UnixPath

/-! ## The code -/

/-- The names that an absolute path leads through. -/
def pathOf (s : String) : Path := FileTree.clean [] (components s)

/-- `filepath.Rel` of two absolute paths. -/
def relText (basepath targpath : String) : String :=
  if UnixPath.clean targpath = UnixPath.clean basepath then "."
  else String.ofList (joined (rel (pathOf basepath) (pathOf targpath)))

/-- `isWithinBase`. -/
def isWithinBaseText (baseAbs targetAbs : String) : Bool :=
  let r := relText baseAbs targetAbs
  r = "." || (!Text.hasPrefix r "../" && r ≠ "..")

inductive PathError where
  /-- absolute paths are not allowed -/
  | absolute (name : String)
  /-- resolve base path -/
  | resolve (err : String)
  /-- path escape detected -/
  | escape (name : String)
  deriving DecidableEq

/-- `SafeJoin`; `getwd` is what the system says of the working directory. -/
def safeJoin (getwd : Except String String) (base name : String) : Except PathError String :=
  if isAbs name then .error (.absolute name)
  else
    match UnixPath.abs getwd base with
    | .error err => .error (.resolve err)
    | .ok baseAbs =>
      let targetAbs := UnixPath.clean (join baseAbs name)
      if isWithinBaseText baseAbs targetAbs then .ok targetAbs else .error (.escape name)

/-! ## Names of absolute paths -/

theorem reduce_rooted (p : Path) (cs : List Component) :
    reduce true (p.map Component.name).reverse cs =
      (FileTree.clean p cs).map Component.name := by
  induction cs generalizing p with
  | nil => exact List.reverse_reverse _
  | cons c cs ih =>
    cases c with
    | here => exact ih p
    | name n =>
      have happend := ih (p ++ [n])
      rw [List.map_append, List.reverse_append] at happend
      exact happend
    | up =>
      show _ = (FileTree.clean p.dropLast cs).map Component.name
      rw [← ih]
      rcases List.eq_nil_or_concat p with rfl | ⟨front, n, rfl⟩
      · rfl
      · rw [List.concat_eq_append, List.dropLast_concat, List.map_append, List.reverse_append]
        rfl

theorem normal_eq_pathOf {s : String} (hs : isAbs s = true) :
    normal s = (pathOf s).map Component.name := by
  unfold normal pathOf
  rw [hs]
  exact reduce_rooted [] (components s)

theorem map_name_injective : Function.Injective (List.map Component.name) :=
  List.map_injective_iff.mpr fun _ _ h => Component.name.inj h

theorem pathOf_clean {s : String} (hs : isAbs s = true) :
    pathOf (UnixPath.clean s) = pathOf s := by
  apply map_name_injective
  rw [← normal_eq_pathOf ((isAbs_clean s).trans hs), normal_clean, normal_eq_pathOf hs]

/-- Joining to a clean directory leads to the same place. -/
theorem pathOf_append_clean {base : String} (hbase : isAbs base = true) (name : String) :
    pathOf (UnixPath.clean base ++ "/" ++ name) = pathOf (base ++ "/" ++ name) := by
  have hne := ne_empty_of_isAbs hbase
  have habs := isAbs_clean base
  apply map_name_injective
  rw [← normal_eq_pathOf ((isAbs_append (clean_ne_empty base) name).trans (habs.trans hbase)),
    ← normal_eq_pathOf ((isAbs_append hne name).trans hbase),
    normal_append (clean_ne_empty base), normal_append hne, normal_clean, habs]

/-! ## The check -/

/-- What a text starts with before its first slash. -/
theorem takeWhile_joined {c : Component} (hc : Plain c) (cs : List Component) :
    (joined (c :: cs)).takeWhile (· ≠ '/') = spell c := by
  have hspell : ∀ x ∈ spell c, decide (x ≠ '/') = true := by
    intro x hx
    apply decide_eq_true
    rintro rfl
    exact hc hx
  rw [joined_cons, List.takeWhile_append_of_pos hspell]
  split_ifs with h
  · simp
  · simp

/-- The text starts with `..` as a whole component exactly if the first component is one. -/
theorem escapes_iff {c : Component} (hc : Plain c) (cs : List Component) :
    (Text.hasPrefix (String.ofList (joined (c :: cs))) "../" = true ∨
      String.ofList (joined (c :: cs)) = "..") ↔ c = .up := by
  have hfirst := takeWhile_joined hc cs
  constructor
  · intro h
    apply spell_injective
    rw [← hfirst]
    rcases h with h | h
    · unfold Text.hasPrefix at h
      rw [String.toList_ofList, String.toList_ofList] at h
      obtain ⟨rest, hrest⟩ := List.isPrefixOf_iff_prefix.mp h
      rw [← hrest]
      rfl
    · have hchars := congrArg String.toList h
      rw [String.toList_ofList] at hchars
      rw [hchars]
      rfl
  · rintro rfl
    rw [joined_cons]
    split_ifs with h
    · exact .inr (by decide)
    · refine .inl ?_
      unfold Text.hasPrefix
      rw [String.toList_ofList, String.toList_ofList]
      exact List.isPrefixOf_iff_prefix.mpr ⟨joined cs, rfl⟩

theorem rel_ne_nil {base target : Path} (h : base ≠ target) : rel base target ≠ [] := by
  induction base generalizing target with
  | nil =>
    cases target with
    | nil => exact absurd rfl h
    | cons t target => exact List.cons_ne_nil _ _
  | cons b base ih =>
    cases target with
    | nil => exact List.cons_ne_nil _ _
    | cons t target =>
      rw [rel]
      split_ifs with heq
      · subst heq
        exact ih fun hrest => h (congrArg (b :: ·) hrest)
      · exact List.cons_ne_nil _ _

/-- The way to a path goes up, and then by names of the path. -/
theorem mem_rel {base target : Path} {c : Component} (h : c ∈ rel base target) :
    c = .up ∨ c ∈ target.map .name := by
  induction base generalizing target with
  | nil => cases target <;> exact .inr h
  | cons b base ih =>
    cases target with
    | nil => exact .inl (List.eq_of_mem_replicate h)
    | cons t target =>
      rw [rel] at h
      split_ifs at h
      · exact (ih h).imp_right (List.mem_cons_of_mem _)
      · exact (List.mem_append.mp h).imp_left List.eq_of_mem_replicate

theorem plain_pathOf {s : String} (hs : isAbs s = true) {c : Component}
    (h : c ∈ (pathOf s).map .name) : Plain c := by
  rw [← normal_eq_pathOf hs] at h
  exact plain_normal h

/-- **The check on texts is the check on names.** -/
theorem isWithinBaseText_iff {base target : String} (hbase : isAbs base = true)
    (htarget : isAbs target = true) :
    isWithinBaseText base target = true ↔ pathOf base <+: pathOf target := by
  have hclean : UnixPath.clean target = UnixPath.clean base ↔ pathOf base = pathOf target := by
    rw [clean_eq_iff (htarget.trans hbase.symm), normal_eq_pathOf htarget, normal_eq_pathOf hbase,
      map_name_injective.eq_iff, eq_comm]
  unfold isWithinBaseText relText
  by_cases hsame : pathOf base = pathOf target
  · rw [if_pos (hclean.mpr hsame), hsame]
    exact iff_of_true rfl List.prefix_rfl
  · rw [if_neg fun h => hsame (hclean.mp h), ← isWithinBase_iff]
    unfold isWithinBase
    cases hrel : rel (pathOf base) (pathOf target) with
    | nil => exact absurd hrel (rel_ne_nil hsame)
    | cons c cs =>
      have hmem : c = .up ∨ c ∈ (pathOf target).map .name := mem_rel (hrel ▸ List.mem_cons_self)
      have hplain : Plain c := by
        rcases hmem with rfl | hmem
        · unfold Plain
          decide
        · exact plain_pathOf htarget hmem
      have hdot : String.ofList (joined (c :: cs)) ≠ "." := by
        intro h
        have hchars := congrArg String.toList h
        rw [String.toList_ofList] at hchars
        have hfirst := takeWhile_joined hplain cs
        rw [hchars] at hfirst
        obtain rfl : Component.here = c := spell_injective hfirst
        rcases hmem with h | h
        · cases h
        · obtain ⟨n, -, hn⟩ := List.mem_map.mp h
          cases hn
      have hescapes := escapes_iff hplain cs
      simp only [hdot, decide_false, Bool.false_or, List.head?_cons, Bool.and_eq_true,
        Bool.not_eq_true', decide_eq_true_eq, ne_eq, Option.some.injEq]
      rw [← hescapes, not_or, Bool.not_eq_true]

/-! ## Joining -/

/-- `SafeJoin` below an absolute directory. -/
theorem safeJoin_eq (getwd : Except String String) {base : String} (hbase : isAbs base = true)
    {name : String} (hname : isAbs name = false) :
    safeJoin getwd base name =
      if pathOf base <+: pathOf (base ++ "/" ++ name) then
        .ok (UnixPath.clean (base ++ "/" ++ name))
      else .error (.escape name) := by
  have hclean := isAbs_clean base
  have hjoin : UnixPath.clean (join (UnixPath.clean base) name) =
      UnixPath.clean (UnixPath.clean base ++ "/" ++ name) := by
    unfold join
    rw [if_pos (clean_ne_empty base), clean_clean]
  have hbelow : isAbs (UnixPath.clean base ++ "/" ++ name) = true :=
    (isAbs_append (clean_ne_empty base) name).trans (hclean.trans hbase)
  have habs : isAbs (base ++ "/" ++ name) = true :=
    (isAbs_append (ne_empty_of_isAbs hbase) name).trans hbase
  have hpath := pathOf_append_clean hbase name
  have hresult : UnixPath.clean (UnixPath.clean base ++ "/" ++ name) =
      UnixPath.clean (base ++ "/" ++ name) := by
    rw [clean_eq_iff (hbelow.trans habs.symm), normal_eq_pathOf hbelow, normal_eq_pathOf habs, hpath]
  have hcheck := isWithinBaseText_iff (hclean.trans hbase) ((isAbs_clean _).trans habs)
  rw [pathOf_clean hbase, pathOf_clean habs] at hcheck
  unfold safeJoin UnixPath.abs
  rw [if_neg (by rw [hname]; exact Bool.false_ne_true), if_pos hbase]
  simp only [hjoin, hresult, hcheck]

/-- **Joining is confined.**  A name can be joined to an absolute directory exactly if it is
relative and the path lies in the directory once it is normalized; the result is this path. -/
theorem safeJoin_iff (getwd : Except String String) {base : String} (hbase : isAbs base = true)
    (name : String) :
    ((∃ target, safeJoin getwd base name = .ok target) ↔
      isAbs name = false ∧ pathOf base <+: pathOf (base ++ "/" ++ name)) ∧
    ∀ target, safeJoin getwd base name = .ok target →
      target = UnixPath.clean (base ++ "/" ++ name) ∧ pathOf base <+: pathOf target := by
  have habs : isAbs (base ++ "/" ++ name) = true :=
    (isAbs_append (ne_empty_of_isAbs hbase) name).trans hbase
  cases hname : isAbs name with
  | true =>
    have hrefused : safeJoin getwd base name = .error (.absolute name) := by
      unfold safeJoin
      rw [if_pos hname]
    rw [hrefused]
    constructor
    · exact iff_of_false (fun ⟨_, h⟩ => by cases h) fun h => Bool.noConfusion h.1
    · intro target h
      cases h
  | false =>
    rw [safeJoin_eq getwd hbase hname]
    by_cases hwithin : pathOf base <+: pathOf (base ++ "/" ++ name)
    · rw [if_pos hwithin]
      refine ⟨iff_of_true ⟨_, rfl⟩ ⟨rfl, hwithin⟩, fun target h => ?_⟩
      obtain rfl := Except.ok.inj h
      rw [pathOf_clean habs]
      exact ⟨rfl, hwithin⟩
    · rw [if_neg hwithin]
      constructor
      · exact iff_of_false (fun ⟨_, h⟩ => by cases h) fun h => hwithin h.2
      · intro target h
        cases h

/-- A name that starts with two dots, and one that goes up and comes back. -/
theorem safeJoin_iff_dots :
    (∃ target, safeJoin (.ok "/") "/tmp/w" "..foo" = .ok target) ∧
      ¬∃ target, safeJoin (.ok "/") "/tmp/w" "a/../.." = .ok target := by
  constructor
  · exact (safeJoin_iff (.ok "/") (by decide) "..foo").1.mpr ⟨by decide, by decide +kernel⟩
  · intro h
    have hwithin := ((safeJoin_iff (.ok "/") (by decide) "a/../..").1.mp h).2
    exact absurd hwithin (by decide +kernel)

example : safeJoin (.ok "/") "/tmp//w/." "./a/../b/" = .ok "/tmp/w/b" := by decide +kernel

end Workspace
