/-
# Paths as texts

The functions of Go's `path/filepath` on a Unix system.  All of them are about the text of
a path only, and `Clean` gives the shortest text of the same components.

* `reduce` : the components that `Clean` leaves; a `..` takes off the name before it, and
  is dropped at the root.
* `normal_format` : what was written from components is read as these components.
* `normal_clean`, `normal_append` : what cleaning and joining do to the components.
* `base_format`, `dir_format` : the last component of a path, and the others.
-/
import JudgePlatform.Library.FileTree

namespace UnixPath

open FileTree

/-! ## Texts of components -/

/-- A component as it is written. -/
def spell : Component → List Char
  | .here => ['.']
  | .up => ['.', '.']
  | .name n => n.1.toList

/-- A text without a slash. -/
def Plain (c : Component) : Prop := '/' ∉ spell c

/-- Components with a slash between each two. -/
def joined (cs : List Component) : List Char := ['/'].intercalate (cs.map spell)

/-- The text of a path; no component at all is the current directory. -/
def format (rooted : Bool) (cs : List Component) : String :=
  if rooted then String.ofList ('/' :: joined cs)
  else if cs = [] then "." else String.ofList (joined cs)

/-! ## Cleaning -/

/-- The components that are left; `stack` has those before, the last one first. -/
def reduce (rooted : Bool) : List Component → List Component → List Component
  | stack, [] => stack.reverse
  | stack, .here :: cs => reduce rooted stack cs
  | .name _ :: stack, .up :: cs => reduce rooted stack cs
  | stack, .up :: cs => reduce rooted (if rooted then stack else .up :: stack) cs
  | stack, .name n :: cs => reduce rooted (.name n :: stack) cs

/-- The components that a path comes to. -/
def normal (s : String) : List Component := reduce (isAbs s) [] (components s)

/-- `filepath.Clean`. -/
def clean (s : String) : String := format (isAbs s) (normal s)

/-- `filepath.Join` of two elements. -/
def join (a b : String) : String :=
  if a ≠ "" then clean (a ++ "/" ++ b) else if b ≠ "" then clean b else ""

/-- `filepath.Abs`, `getwd` being the answer of the operating system. -/
def abs (getwd : Except String String) (s : String) : Except String String :=
  if isAbs s then .ok (clean s) else getwd.map fun wd => join wd s

/-- `filepath.Base`. -/
def base (s : String) : String :=
  if s = "" then "."
  else
    match ((s.toList.splitOn '/').filter (· ≠ [])).getLast? with
    | some cs => String.ofList cs
    | none => "/"

/-- `filepath.Dir`. -/
def dir (s : String) : String := clean (String.ofList (s.toList.rdropWhile (· ≠ '/')))

/-! ## Reading what was written -/

theorem component_spell (c : Component) : component (String.ofList (spell c)) = c := by
  cases c with
  | here => decide
  | up => decide
  | name n =>
    obtain ⟨s, hs⟩ := n
    show component (String.ofList s.toList) = _
    rw [String.ofList_toList]
    unfold component
    rw [if_neg hs.2.2, dif_pos hs]

theorem spell_injective {c d : Component} (h : spell c = spell d) : c = d := by
  rw [← component_spell c, ← component_spell d, h]

theorem spell_ne_nil (c : Component) : spell c ≠ [] := by
  cases c with
  | here => exact List.cons_ne_nil _ _
  | up => exact List.cons_ne_nil _ _
  | name n => exact fun h => n.2.1 (String.toList_eq_nil_iff.mp h)

theorem plain_of_mem_splitOn {cs l : List Char} (h : l ∈ cs.splitOn '/') : '/' ∉ l := by
  induction cs generalizing l with
  | nil =>
    rw [List.splitOn_nil, List.mem_singleton] at h
    rw [h]
    exact List.not_mem_nil
  | cons c cs ih =>
    rw [List.splitOn_cons_eq_if_modifyHead] at h
    split_ifs at h with hc
    · rcases List.mem_cons.mp h with rfl | h
      · exact List.not_mem_nil
      · exact ih h
    · cases hsplit : cs.splitOn '/' with
      | nil => exact absurd hsplit (List.splitOn_ne_nil _ _)
      | cons d ds =>
        rw [hsplit] at ih h
        rcases List.mem_cons.mp h with rfl | h
        · rw [List.mem_cons, not_or]
          exact ⟨fun heq => hc (beq_iff_eq.mpr heq.symm), ih List.mem_cons_self⟩
        · exact ih (List.mem_cons_of_mem d h)

/-- The components of a text have no slashes. -/
theorem plain_components {s : String} {c : Component} (h : c ∈ components s) : Plain c := by
  obtain ⟨l, hl, rfl⟩ := List.mem_map.mp h
  unfold component Plain
  split_ifs with hup hname
  · decide
  · show '/' ∉ (String.ofList l).toList
    rw [String.toList_ofList]
    exact plain_of_mem_splitOn hl
  · decide

theorem components_append (a b : String) :
    components (a ++ "/" ++ b) = components a ++ components b := by
  unfold components
  rw [String.toList_append, String.toList_append, List.append_assoc, ← List.map_append]
  congr 1
  exact List.splitOn_append_cons_self a.toList b.toList

theorem components_joined {cs : List Component} (h : ∀ c ∈ cs, Plain c) :
    components (String.ofList (joined cs)) = if cs = [] then [.here] else cs := by
  unfold components joined
  rw [String.toList_ofList]
  split_ifs with hnil
  · rw [hnil]
    decide
  · rw [List.splitOn_intercalate '/' _ (by simpa using hnil), List.map_map]
    · exact (List.map_congr_left fun c _ => component_spell c).trans (List.map_id cs)
    · intro l hl
      obtain ⟨c, hc, rfl⟩ := List.mem_map.mp hl
      exact h c hc

/-! ## Reduced components -/

/-- Names after some `..`, which there are none of at the root. -/
def Reduced (rooted : Bool) (cs : List Component) : Prop :=
  ∃ (k : ℕ) (names : Path), cs = List.replicate k .up ++ names.map .name ∧ (rooted = true → k = 0)

section Reducing

variable {rooted : Bool} {cs ds : List Component}

theorem reduce_append (stack : List Component) :
    reduce rooted stack (cs ++ ds) = reduce rooted (reduce rooted stack cs).reverse ds := by
  induction cs generalizing stack with
  | nil => rw [List.nil_append, reduce, List.reverse_reverse]
  | cons c cs ih =>
    cases c with
    | here => exact ih stack
    | up =>
      cases stack with
      | nil => exact ih _
      | cons d stack => cases d <;> exact ih _
    | name n => exact ih _

/-- **Cleaning leaves reduced components.** -/
theorem reduced_reduce (stack : List Component) (h : Reduced rooted stack.reverse) :
    Reduced rooted (reduce rooted stack cs) := by
  induction cs generalizing stack with
  | nil => exact h
  | cons c cs ih =>
    obtain ⟨k, names, hstack, hk⟩ := h
    cases c with
    | here => exact ih stack ⟨k, names, hstack, hk⟩
    | name n =>
      refine ih (.name n :: stack) ⟨k, names ++ [n], ?_, hk⟩
      rw [List.reverse_cons, hstack, List.map_append, List.append_assoc]
      rfl
    | up =>
      have hst := List.reverse_eq_iff.mp hstack
      -- the last of the names goes, if there is one
      rcases List.eq_nil_or_concat names with rfl | ⟨front, n, rfl⟩
      · rw [List.map_nil, List.append_nil, List.reverse_replicate] at hst
        have hups : reduce rooted stack (.up :: cs) =
            reduce rooted (if rooted then stack else .up :: stack) cs := by
          rw [hst]
          cases k <;> rfl
        rw [hups]
        apply ih
        cases rooted with
        | true => exact ⟨k, [], hstack, hk⟩
        | false =>
          refine ⟨k + 1, [], ?_, fun h => Bool.noConfusion h⟩
          rw [hst, if_neg Bool.false_ne_true, ← List.replicate_succ, List.reverse_replicate,
            List.map_nil, List.append_nil]
      · rw [List.concat_eq_append, List.map_append, ← List.append_assoc, List.reverse_append] at hst
        rw [hst]
        apply ih
        exact ⟨k, front, List.reverse_reverse _, hk⟩

theorem reduced_normal (s : String) : Reduced (isAbs s) (normal s) :=
  reduced_reduce [] ⟨0, [], rfl, fun _ => rfl⟩

theorem reduce_names (stack : List Component) (names : Path) :
    reduce rooted stack (names.map .name) = stack.reverse ++ names.map .name := by
  induction names generalizing stack with
  | nil => exact (List.append_nil _).symm
  | cons n names ih =>
    show reduce rooted (.name n :: stack) (names.map .name) = _
    rw [ih, List.reverse_cons, List.append_assoc]
    rfl

/-- Reduced components are left as they are. -/
theorem reduce_of_reduced (h : Reduced rooted cs) : reduce rooted [] cs = cs := by
  obtain ⟨k, names, rfl, hk⟩ := h
  have hups : reduce rooted [] (List.replicate k .up) = List.replicate k .up := by
    cases rooted with
    | true => rw [hk rfl, List.replicate_zero, reduce, List.reverse_nil]
    | false =>
      suffices hgeneral : ∀ j, reduce false (List.replicate j .up) (List.replicate k .up) =
          List.replicate (j + k) .up from by
        rw [← List.replicate_zero, hgeneral, Nat.zero_add]
      clear hk
      induction k with
      | zero =>
        intro j
        rw [List.replicate_zero, reduce, List.reverse_replicate, Nat.add_zero]
      | succ k ih =>
        intro j
        have hstep : reduce false (List.replicate j .up) (.up :: List.replicate k .up) =
            reduce false (.up :: List.replicate j .up) (List.replicate k .up) := by
          cases j <;> rfl
        rw [List.replicate_succ, hstep, ← List.replicate_succ, ih]
        congr 1
        omega
  rw [reduce_append, hups, reduce_names, List.reverse_reverse]

theorem plain_reduce {stack : List Component} {c : Component} (hstack : ∀ c ∈ stack, Plain c)
    (hcs : ∀ c ∈ cs, Plain c) (h : c ∈ reduce rooted stack cs) : Plain c := by
  induction cs generalizing stack with
  | nil => exact hstack c (List.mem_reverse.mp h)
  | cons d cs ih =>
    obtain ⟨hd, hrest⟩ := List.forall_mem_cons.mp hcs
    have hup : Plain .up := by
      unfold Plain
      decide
    cases d with
    | here => exact ih hstack hrest h
    | name n => exact ih (List.forall_mem_cons.mpr ⟨hd, hstack⟩) hrest h
    | up =>
      have hlonger : ∀ c ∈ (if rooted then stack else .up :: stack), Plain c := by
        split_ifs
        · exact hstack
        · exact List.forall_mem_cons.mpr ⟨hup, hstack⟩
      cases stack with
      | nil => exact ih hlonger hrest h
      | cons e stack =>
        cases e with
        | name n => exact ih (fun c hc => hstack c (List.mem_cons_of_mem _ hc)) hrest h
        | here => exact ih hlonger hrest h
        | up => exact ih hlonger hrest h

end Reducing

theorem plain_normal {s : String} {c : Component} (h : c ∈ normal s) : Plain c :=
  plain_reduce (fun _ h => absurd h List.not_mem_nil) (fun _ h => plain_components h) h

/-! ## Texts of reduced components -/

section Formatting

variable {rooted : Bool} {cs : List Component}

theorem joined_cons (c : Component) (cs : List Component) :
    joined (c :: cs) = spell c ++ if cs = [] then [] else '/' :: joined cs := by
  unfold joined
  cases cs with
  | nil => simp
  | cons d cs => simp [List.intercalate]

theorem isAbs_format (h : ∀ c ∈ cs, Plain c) : isAbs (format rooted cs) = rooted := by
  unfold format isAbs
  cases rooted with
  | true => simp
  | false =>
    rw [if_neg Bool.false_ne_true]
    cases cs with
    | nil => decide
    | cons c cs =>
      rw [if_neg (List.cons_ne_nil c cs), String.toList_ofList, joined_cons]
      cases hc : spell c with
      | nil => exact absurd hc (spell_ne_nil c)
      | cons x xs =>
        have hplain : '/' ∉ spell c := h c List.mem_cons_self
        rw [hc, List.mem_cons, not_or] at hplain
        rw [List.cons_append, List.head?_cons, decide_eq_false_iff_not, Option.some.injEq]
        exact fun heq => hplain.1 heq.symm

/-- **What was written from reduced components is read as these.** -/
theorem normal_format (hplain : ∀ c ∈ cs, Plain c) (h : Reduced rooted cs) :
    normal (format rooted cs) = cs := by
  unfold normal
  rw [isAbs_format hplain]
  have hjoined := components_joined hplain
  cases rooted with
  | true =>
    have hslash : format true cs = "" ++ "/" ++ String.ofList (joined cs) := by
      rw [← String.toList_inj, format, if_pos rfl]
      simp
    rw [hslash, components_append, hjoined]
    have hempty : components "" = [.here] := by decide
    rw [hempty]
    show reduce true [] (if cs = [] then [.here] else cs) = cs
    split_ifs with hnil
    · rw [hnil]
      rfl
    · exact reduce_of_reduced h
  | false =>
    rw [format, if_neg Bool.false_ne_true]
    split_ifs with hnil
    · rw [hnil]
      decide
    · rw [hjoined, if_neg hnil]
      exact reduce_of_reduced h

end Formatting

theorem isAbs_clean (s : String) : isAbs (clean s) = isAbs s :=
  isAbs_format fun _ h => plain_normal h

/-- Cleaning does not change where a path leads. -/
theorem normal_clean (s : String) : normal (clean s) = normal s :=
  normal_format (fun _ h => plain_normal h) (reduced_normal s)

/-- A clean path is clean. -/
theorem clean_clean (s : String) : clean (clean s) = clean s := by
  have hclean : clean (clean s) = format (isAbs (clean s)) (normal (clean s)) := rfl
  rw [hclean, isAbs_clean, normal_clean]
  rfl

theorem clean_eq_iff {s t : String} (h : isAbs s = isAbs t) :
    clean s = clean t ↔ normal s = normal t := by
  constructor
  · intro heq
    rw [← normal_clean s, heq, normal_clean]
  · intro heq
    unfold clean
    rw [h, heq]

theorem isAbs_append {a : String} (ha : a ≠ "") (b : String) :
    isAbs (a ++ "/" ++ b) = isAbs a := by
  unfold isAbs
  rw [String.toList_append, String.toList_append]
  cases h : a.toList with
  | nil => exact absurd (String.toList_eq_nil_iff.mp h) ha
  | cons c cs => rfl

/-- **A path goes on from where its first part leads.** -/
theorem normal_append {a : String} (ha : a ≠ "") (b : String) :
    normal (a ++ "/" ++ b) = reduce (isAbs a) (normal a).reverse (components b) := by
  unfold normal
  rw [isAbs_append ha, components_append, reduce_append]

theorem clean_ne_empty (s : String) : clean s ≠ "" := by
  unfold clean format
  split_ifs with hrooted hnil
  · exact fun h => by simpa using congrArg String.toList h
  · decide
  · intro h
    have hjoined := congrArg String.toList h
    rw [String.toList_ofList] at hjoined
    cases hcs : normal s with
    | nil => exact hnil hcs
    | cons c cs =>
      rw [hcs, joined_cons] at hjoined
      exact spell_ne_nil c (List.append_eq_nil_iff.mp hjoined).1

theorem ne_empty_of_isAbs {s : String} (h : isAbs s = true) : s ≠ "" := by
  rintro rfl
  exact absurd h (by decide)

/-! ## The last component -/

section Last

variable {rooted : Bool} {cs : List Component} {c : Component}

theorem joined_concat (cs : List Component) (c : Component) :
    joined (cs ++ [c]) = (if cs = [] then [] else joined cs ++ ['/']) ++ spell c := by
  induction cs with
  | nil => simp [joined]
  | cons d cs ih =>
    have hne : cs ++ [c] ≠ [] := by simp
    rw [List.cons_append, joined_cons, if_neg hne, ih, if_neg (List.cons_ne_nil d cs), joined_cons]
    split_ifs <;> simp

/-- What is before the last component of a path, its slash included. -/
def front (rooted : Bool) (cs : List Component) : String :=
  if cs = [] then (if rooted then "/" else "") else format rooted cs ++ "/"

theorem format_concat (cs : List Component) (c : Component) :
    format rooted (cs ++ [c]) = front rooted cs ++ String.ofList (spell c) := by
  rw [← String.toList_inj]
  by_cases h : cs = []
  · cases rooted <;> simp [format, front, joined, h]
  · cases rooted <;> simp [format, front, joined_concat, h]

theorem front_eq (rooted : Bool) (cs : List Component) :
    (front rooted cs).toList = [] ∨ ∃ pre, (front rooted cs).toList = pre ++ ['/'] := by
  unfold front
  split_ifs with h hrooted
  · exact .inr ⟨[], rfl⟩
  · exact .inl rfl
  · exact .inr ⟨_, String.toList_append⟩

theorem clean_front (hplain : ∀ c ∈ cs, Plain c) (h : Reduced rooted cs) :
    clean (front rooted cs) = format rooted cs := by
  unfold front
  split_ifs with hnil hrooted
  · rw [hnil, hrooted]
    decide
  · rw [hnil, eq_false_of_ne_true hrooted]
    decide
  · have hslash : format rooted cs ++ "/" = format rooted cs ++ "/" ++ "" := by simp
    have hne : format rooted cs ≠ "" := by
      have hclean : clean (format rooted cs) = format rooted cs := by
        unfold clean
        rw [isAbs_format hplain, normal_format hplain h]
      rw [← hclean]
      exact clean_ne_empty _
    have hempty : components "" = [.here] := by decide
    unfold clean
    rw [hslash, isAbs_append hne, normal_append hne, isAbs_format hplain, normal_format hplain h,
      hempty, reduce, reduce, List.reverse_reverse]

/-- **The last component of a path.** -/
theorem base_format (hc : Plain c) :
    base (format rooted (cs ++ [c])) = String.ofList (spell c) := by
  have hspell := spell_ne_nil c
  have hsplit : ∃ ls, (format rooted (cs ++ [c])).toList.splitOn '/' = ls ++ [spell c] := by
    rw [format_concat, String.toList_append, String.toList_ofList]
    rcases front_eq rooted cs with h | ⟨pre, h⟩
    · rw [h, List.nil_append, List.splitOn_eq_singleton hc]
      exact ⟨[], rfl⟩
    · rw [h, List.append_assoc, List.singleton_append, List.splitOn_append_cons_self,
        List.splitOn_eq_singleton hc]
      exact ⟨_, rfl⟩
  obtain ⟨ls, hls⟩ := hsplit
  have hne : format rooted (cs ++ [c]) ≠ "" := by
    intro h
    rw [format_concat] at h
    have happend := congrArg String.toList h
    rw [String.toList_append, String.toList_ofList] at happend
    exact hspell (List.append_eq_nil_iff.mp happend).2
  unfold base
  rw [if_neg hne, hls, List.filter_append, List.filter_singleton, decide_eq_true hspell, cond_true,
    List.getLast?_concat]

/-- **The path without its last component.** -/
theorem dir_format (hc : Plain c) (hplain : ∀ c ∈ cs, Plain c) (h : Reduced rooted cs) :
    dir (format rooted (cs ++ [c])) = format rooted cs := by
  have hdrop : (format rooted (cs ++ [c])).toList.rdropWhile (· ≠ '/') =
      (front rooted cs).toList := by
    have hspell : ∀ x ∈ (spell c).reverse, decide (x ≠ '/') = true := by
      intro x hx
      apply decide_eq_true
      rintro rfl
      exact hc (List.mem_reverse.mp hx)
    rw [format_concat, String.toList_append, String.toList_ofList, List.rdropWhile,
      List.reverse_append, List.dropWhile_append_of_pos hspell]
    rcases front_eq rooted cs with hfront | ⟨pre, hfront⟩
    · rw [hfront]
      rfl
    · rw [hfront, List.reverse_append, List.reverse_singleton, List.singleton_append,
        List.dropWhile_cons_of_neg (by decide), List.reverse_cons, List.reverse_reverse]
  unfold dir
  rw [hdrop, String.ofList_toList]
  exact clean_front hplain h

end Last

end UnixPath
