/-
# Searching a text that was put together

A search for a word, in any case, in a text whose parts were trimmed and joined by fixed
separators.  A word with spaces inside may reach over the end of a part; what matters is
that no occurrence reaches into a separator.

* `Separates` : no occurrence of the word reaches into the separator.
* `infix_separated`, `contains_separated` : then the word is in the text exactly when it
  is in one of the two parts.
* `contains_trimSpace` : trimming hides no word that begins and ends with a letter.
-/
import JudgePlatform.Library.Bracketed
import JudgePlatform.Library.Text

namespace Text

open Bracketed

/-! ## Separators -/

section Separators

variable {α : Type*} {sep word s t w w' : List α}

/-- **No occurrence of the word reaches into the separator**: it is neither inside nor
around it, and begins or ends in no part of it. -/
@[mk_iff]
structure Separates (sep word : List α) : Prop where
  inside : ¬word <:+: sep
  around : ¬sep <:+: word
  ending : ∀ p ∈ sep.inits, p ≠ [] → ¬p <:+ word
  beginning : ∀ p ∈ sep.tails, p ≠ [] → ¬p <+: word

instance [DecidableEq α] : Decidable (Separates sep word) :=
  decidable_of_iff' _ (separates_iff sep word)

/-- **A word in a text with a separator is in one of its parts.** -/
theorem infix_separated (h : Separates sep word) :
    word <:+: s ++ sep ++ t ↔ word <:+: s ∨ word <:+: t := by
  constructor
  · intro hword
    rw [List.append_assoc, List.infix_append_iff_ne_nil] at hword
    rcases hword with hs | hrest | ⟨u, v, -, hv, rfl, -, hbegin⟩
    · exact Or.inl hs
    · rw [List.infix_append_iff_ne_nil] at hrest
      rcases hrest with hsep | ht | ⟨u, v, hu, -, rfl, hfinish, -⟩
      · exact absurd hsep h.inside
      · exact Or.inr ht
      · exact absurd (List.prefix_append u v) (h.beginning u ((List.mem_tails _ _).mpr hfinish) hu)
    · -- the second part of the word and the separator are prefixes of the same text
      rcases List.prefix_or_prefix_of_prefix hbegin (List.prefix_append sep t) with hle | hge
      · exact absurd (List.suffix_append u v) (h.ending v ((List.mem_inits _ _).mpr hle) hv)
      · exact absurd (hge.isInfix.trans (List.suffix_append u v).isInfix) h.around
  · rintro (hs | ht)
    · exact hs.trans (List.append_assoc s sep t ▸ List.prefix_append s (sep ++ t)).isInfix
    · exact ht.trans (List.suffix_append (s ++ sep) t).isInfix

/-- Blanks around a text hide no word that begins and ends with something else. -/
theorem infix_surrounded {blank : α → Bool} (hw : ∀ c ∈ w, blank c = true)
    (hw' : ∀ c ∈ w', blank c = true) (hword : word ≠ []) (hhead : word.head?.any blank = false)
    (hlast : word.getLast?.any blank = false) : word <:+: w ++ t ++ w' ↔ word <:+: t := by
  have hfirst : ∀ c, word.head? = some c → ¬blank c = true := by
    intro c hc hblank
    rw [hc, Option.any_some, hblank] at hhead
    cases hhead
  have hend : ∀ c, word.getLast? = some c → ¬blank c = true := by
    intro c hc hblank
    rw [hc, Option.any_some, hblank] at hlast
    cases hlast
  have hnot : ∀ {w : List α}, (∀ c ∈ w, blank c = true) → ¬word <:+: w := by
    intro w hw h
    exact hfirst _ (List.head?_eq_some_head hword) (hw _ (h.subset (List.head_mem hword)))
  constructor
  · intro h
    rcases List.infix_append_iff_ne_nil.mp h with h | h | ⟨u, v, -, hv, rfl, -, hbegin⟩
    · rcases List.infix_append_iff_ne_nil.mp h with h | h | ⟨u, v, hu, -, rfl, hfinish, -⟩
      · exact absurd h (hnot hw)
      · exact h
      · -- the word begins among the blanks before the text
        refine absurd (hw _ (hfinish.subset (List.head_mem hu))) (hfirst _ ?_)
        rw [List.head?_append_of_ne_nil _ hu]
        exact List.head?_eq_some_head hu
    · exact absurd h (hnot hw')
    · -- the word ends among the blanks after the text
      refine absurd (hw' _ (hbegin.subset (List.getLast_mem hv))) (hend _ ?_)
      rw [List.getLast?_append_of_ne_nil _ hv]
      exact List.getLast?_eq_some_getLast hv
  · intro h
    exact (h.trans (List.suffix_append w t).isInfix).trans (List.prefix_append _ w').isInfix

end Separators

/-! ## Words in texts -/

theorem contains_iff {s word : String} : contains s word = true ↔ word.toList <:+: s.toList :=
  decide_eq_true_iff

theorem contains_separated {sep word : String} (h : Separates sep.toList word.toList)
    (s t : String) : contains (s ++ sep ++ t) word = (contains s word || contains t word) := by
  rw [Bool.eq_iff_iff, Bool.or_eq_true, contains_iff, contains_iff, contains_iff,
    String.toList_append, String.toList_append]
  exact infix_separated h

/-- White space has no case. -/
theorem lowerChar_of_isSpace {c : Char} (h : isSpace c = true) : lowerChar c = c := by
  have hsmall : c.toNat < 65 ∨ 0x7A < c.toNat ∧ c.toNat ≠ 0x130 ∧ c.toNat ≠ 0x212A := by
    unfold isSpace at h
    rw [decide_eq_true_eq] at h
    rcases h with rfl | ⟨-, hc⟩ | h
    · exact Or.inl (by decide)
    · have : c.toNat ≤ 13 := UInt32.le_iff_toNat_le.mp hc
      exact Or.inl (by omega)
    · omega
  unfold lowerChar
  rw [if_neg (by omega), if_neg (by omega)]
  unfold Char.toLower
  split_ifs with hc
  · have hlow : 65 ≤ c.toNat := UInt32.le_iff_toNat_le.mp hc.1
    have hhigh : c.toNat ≤ 90 := UInt32.le_iff_toNat_le.mp hc.2
    omega
  · rfl

/-- **Trimming hides no word that begins and ends with a letter.** -/
theorem contains_trimSpace {word : String} (hword : word ≠ "")
    (hhead : word.toList.head?.any isSpace = false)
    (hlast : word.toList.getLast?.any isSpace = false) (s : String) :
    contains (toLower (trimSpace s)) word = contains (toLower s) word := by
  obtain ⟨w, w', hs, hw, hw'⟩ := exists_trim isSpace s.toList
  have hblank : ∀ {w : List Char}, (∀ c ∈ w, isSpace c = true) →
      ∀ c ∈ w.map lowerChar, isSpace c = true := by
    intro w hw c hc
    obtain ⟨d, hd, rfl⟩ := List.mem_map.mp hc
    rw [lowerChar_of_isSpace (hw d hd)]
    exact hw d hd
  rw [Bool.eq_iff_iff, contains_iff, contains_iff]
  unfold toLower
  rw [String.toList_ofList, String.toList_ofList, hs, List.map_append, List.map_append,
    infix_surrounded (hblank hw) (hblank hw') (by simpa using hword) hhead hlast]
  unfold trimSpace
  rw [String.toList_ofList]
  rfl

end Text
