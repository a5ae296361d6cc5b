/-
# Lines of a text

A text that is split into lines, each of which is trimmed, with the blank ones passed over.
White space around the whole text makes no difference then.

* `nonblank` : the trimmed lines that are not blank.
* `nonblank_trimSpace` : trimming the whole text changes none of them.
-/
import JudgePlatform.Library.Bracketed
import JudgePlatform.Library.Text

namespace Text

open Bracketed

/-! ## Trimming one character more -/

theorem trim_cons {c : Char} (hc : isSpace c = true) (s : List Char) :
    trim isSpace (c :: s) = trim isSpace s := by
  unfold trim
  rw [List.dropWhile_cons_of_pos hc]

theorem trim_concat {c : Char} (hc : isSpace c = true) (s : List Char) :
    trim isSpace (s ++ [c]) = trim isSpace s := by
  unfold trim
  rw [List.dropWhile_append]
  split_ifs with h
  -- all of the text is white space, and so is the character behind it
  · have hs : s.dropWhile isSpace = [] := by simpa using h
    rw [hs, List.dropWhile_cons_of_pos hc]
    rfl
  · rw [List.reverse_append, List.reverse_singleton, List.singleton_append,
      List.dropWhile_cons_of_pos hc]

/-! ## Splitting one character more -/

theorem splitOn_cons {c : Char} (hc : c ≠ '\n') (s : List Char) :
    (c :: s).splitOn '\n' = (s.splitOn '\n').modifyHead (c :: ·) := by
  rw [List.splitOn_cons_eq_if_modifyHead, if_neg (by simpa using hc)]

theorem splitOn_concat {c : Char} (hc : c ≠ '\n') (s : List Char) :
    ∃ ls l, s.splitOn '\n' = ls ++ [l] ∧ (s ++ [c]).splitOn '\n' = ls ++ [l ++ [c]] := by
  induction s with
  | nil => exact ⟨[], [], rfl, by rw [List.nil_append, splitOn_cons hc]; rfl⟩
  | cons d s ih =>
    obtain ⟨ls, l, hs, hsc⟩ := ih
    by_cases hd : d = '\n'
    · subst hd
      refine ⟨[] :: ls, l, ?_, ?_⟩
      · rw [← List.nil_append ('\n' :: s), List.splitOn_append_cons_self, hs]
        rfl
      · rw [List.cons_append, ← List.nil_append ('\n' :: (s ++ [c])),
          List.splitOn_append_cons_self, hsc]
        rfl
    · rw [splitOn_cons hd, List.cons_append, splitOn_cons hd, hs, hsc]
      cases ls with
      | nil => exact ⟨[], d :: l, rfl, rfl⟩
      | cons l' ls => exact ⟨(d :: l') :: ls, l, rfl, rfl⟩

/-! ## Lines that are not blank -/

/-- The trimmed lines that are not blank. -/
def nonblank (s : String) : List String := ((lines s).map trimSpace).filter (· ≠ "")

/-- The same of a list of characters. -/
def nonblankChars (s : List Char) : List (List Char) :=
  ((s.splitOn '\n').map (trim isSpace)).filter (· ≠ [])

theorem nonblank_eq (s : String) : nonblank s = (nonblankChars s.toList).map String.ofList := by
  have hblank : ∀ l : List Char, (decide (String.ofList l ≠ "")) = decide (l ≠ []) := by
    intro l
    rw [decide_eq_decide, ne_eq, ne_eq, ← String.toList_inj, String.toList_ofList]
    rfl
  have htrim : ∀ l : List Char, trimSpace (String.ofList l) = String.ofList (trim isSpace l) := by
    intro l
    unfold trimSpace
    rw [String.toList_ofList]
    rfl
  unfold nonblank nonblankChars lines
  induction s.toList.splitOn '\n' with
  | nil => rfl
  | cons l ls ih =>
    rw [List.map_cons, List.map_cons, List.map_cons, htrim, List.filter_cons, List.filter_cons, hblank,
      ih]
    split_ifs <;> rfl

theorem nonblankChars_cons {c : Char} (hc : isSpace c = true) (s : List Char) :
    nonblankChars (c :: s) = nonblankChars s := by
  unfold nonblankChars
  by_cases hline : c = '\n'
  · subst hline
    -- a line feed in front makes one more line, which is blank
    rw [← List.nil_append ('\n' :: s), List.splitOn_append_cons_self]
    rfl
  · rw [splitOn_cons hline]
    cases hs : s.splitOn '\n' with
    | nil => rfl
    | cons l ls => rw [List.modifyHead_cons, List.map_cons, List.map_cons, trim_cons hc]

theorem nonblankChars_concat {c : Char} (hc : isSpace c = true) (s : List Char) :
    nonblankChars (s ++ [c]) = nonblankChars s := by
  unfold nonblankChars
  by_cases hline : c = '\n'
  · subst hline
    rw [List.splitOn_append_cons_self, List.map_append, List.filter_append]
    simp [trim]
  · obtain ⟨ls, l, hs, hsc⟩ := splitOn_concat hline s
    rw [hs, hsc, List.map_append, List.map_append, List.map_singleton, List.map_singleton,
      trim_concat hc]

/-- **Trimming the text keeps the lines that are not blank.** -/
theorem nonblank_trimSpace (s : String) : nonblank (trimSpace s) = nonblank s := by
  have hbefore : ∀ (w t : List Char), (∀ c ∈ w, isSpace c = true) →
      nonblankChars (w ++ t) = nonblankChars t := by
    intro w t hw
    induction w with
    | nil => rfl
    | cons c w ih =>
      obtain ⟨hc, hw⟩ := List.forall_mem_cons.mp hw
      rw [List.cons_append, nonblankChars_cons hc, ih hw]
  have hafter : ∀ (t w : List Char), (∀ c ∈ w, isSpace c = true) →
      nonblankChars (t ++ w) = nonblankChars t := by
    intro t w hw
    induction w using List.reverseRecOn with
    | nil => rw [List.append_nil]
    | append_singleton w c ih =>
      rw [← List.append_assoc, nonblankChars_concat (hw c (by simp)), ih fun d hd => hw d (by simp [hd])]
  obtain ⟨w, w', hs, hw, hw'⟩ := exists_trim isSpace s.toList
  have htrim : (trimSpace s).toList = trim isSpace s.toList := String.toList_ofList
  rw [nonblank_eq, nonblank_eq, htrim]
  conv_rhs => rw [hs, hafter _ _ hw', hbefore _ _ hw]

end Text
