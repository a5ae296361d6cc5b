/-
# Words with an argument in angle brackets

Texts such as `list<set<int>>`: a word of small letters that may be followed by an
argument in angle brackets, which is again such a text, with white space around it.
What counts as white space and what an argument may contain depends on the language
that reads the text, its `Dialect`.

* `capture` : the expression `^([a-z]+)(?:<(.+)>)?$` and what its groups capture.
* `Spelling` : the texts that spell a word with arguments.
* `spelling_of_step` : a recognizer that trims, matches and goes on with what is in the
  brackets accepts the spellings of its dialect.
* `Spelling.strict_iff` : a spelling of one dialect among those of a wider one.
-/
import Mathlib

namespace Bracketed

/-! ## Trimming -/

/-- The text without the white space at its ends. -/
def trim (space : Char → Bool) (s : List Char) : List Char :=
  ((s.dropWhile space).reverse.dropWhile space).reverse

/-- What trimming takes away is white space. -/
theorem exists_trim (space : Char → Bool) (s : List Char) :
    ∃ w w', s = w ++ trim space s ++ w' ∧ (∀ c ∈ w, space c = true) ∧
      ∀ c ∈ w', space c = true := by
  refine ⟨s.takeWhile space, ((s.dropWhile space).reverse.takeWhile space).reverse, ?_, ?_, ?_⟩
  · rw [trim, List.append_assoc, ← List.reverse_append, List.takeWhile_append_dropWhile,
      List.reverse_reverse, List.takeWhile_append_dropWhile]
  · intro c hc
    exact List.mem_takeWhile_imp hc
  · intro c hc
    exact List.mem_takeWhile_imp (List.mem_reverse.mp hc)

theorem dropWhile_append_of_all {p : Char → Bool} {w t : List Char} (hw : ∀ c ∈ w, p c = true)
    (ht : ∀ c ∈ t.head?, p c = false) : (w ++ t).dropWhile p = t := by
  induction w with
  | nil =>
    cases t with
    | nil => rfl
    | cons c t => rw [List.nil_append, List.dropWhile_cons_of_neg (by simp [ht c rfl])]
  | cons c w ih =>
    obtain ⟨hc, hw⟩ := List.forall_mem_cons.mp hw
    rw [List.cons_append, List.dropWhile_cons_of_pos hc, ih hw]

/-- A text that begins and ends with something else is what is left of it. -/
theorem trim_append {space : Char → Bool} {w t w' : List Char} (hw : ∀ c ∈ w, space c = true)
    (hw' : ∀ c ∈ w', space c = true) (hne : t ≠ []) (ht : ∀ c ∈ t.head?, space c = false)
    (ht' : ∀ c ∈ t.getLast?, space c = false) : trim space (w ++ t ++ w') = t := by
  have hhead : ∀ c ∈ (t ++ w').head?, space c = false := by
    rw [List.head?_append_of_ne_nil _ hne]
    exact ht
  have hlast : ∀ c ∈ t.reverse.head?, space c = false := by
    rw [List.head?_reverse]
    exact ht'
  have hrev : ∀ c ∈ w'.reverse, space c = true := fun c hc => hw' c (List.mem_reverse.mp hc)
  rw [trim, List.append_assoc, dropWhile_append_of_all hw hhead, List.reverse_append,
    dropWhile_append_of_all hrev hlast, List.reverse_reverse]

theorem length_trim_le (space : Char → Bool) (s : List Char) :
    (trim space s).length ≤ s.length := by
  obtain ⟨w, w', hs, -⟩ := exists_trim space s
  have hlength := congrArg List.length hs
  rw [List.length_append, List.length_append] at hlength
  omega

/-! ## The expression -/

/-- A word of small letters. -/
def IsWord (k : List Char) : Prop := k ≠ [] ∧ ∀ c ∈ k, c.isLower = true

/-- The texts that `^([a-z]+)(?:<(.+)>)?$` matches, with what its two groups capture. -/
inductive Captures (dot : Char → Bool) : List Char → List Char → Option (List Char) → Prop
  | word {k : List Char} (hk : IsWord k) : Captures dot k k none
  | bracketed {k inner : List Char} (hk : IsWord k) (hne : inner ≠ [])
    (hdot : ∀ c ∈ inner, dot c = true) : Captures dot (k ++ '<' :: (inner ++ ['>'])) k (some inner)

/-- Matching the expression: the letters as far as they go, and then nothing or brackets
around what is left. -/
def capture (dot : Char → Bool) (s : List Char) : Option (List Char × Option (List Char)) :=
  let kind := s.takeWhile Char.isLower
  let rest := s.dropWhile Char.isLower
  let inner := rest.tail.dropLast
  if kind = [] then none
  else if rest = [] then some (kind, none)
  else if rest = '<' :: (inner ++ ['>']) ∧ inner ≠ [] ∧ inner.all dot = true then
    some (kind, some inner)
  else none

theorem takeWhile_append_of_all {p : Char → Bool} {k t : List Char} (hk : ∀ c ∈ k, p c = true)
    (ht : ∀ c ∈ t.head?, p c = false) : (k ++ t).takeWhile p = k := by
  have h := List.takeWhile_append_dropWhile (p := p) (l := k ++ t)
  rw [dropWhile_append_of_all hk ht] at h
  exact List.append_cancel_right h

/-- **The expression is matched in one way only.** -/
theorem capture_eq_some_iff {dot : Char → Bool} {s kind : List Char} {inner : Option (List Char)} :
    capture dot s = some (kind, inner) ↔ Captures dot s kind inner := by
  constructor
  · intro h
    have hs := List.takeWhile_append_dropWhile (p := Char.isLower) (l := s)
    have hletters : ∀ c ∈ s.takeWhile Char.isLower, c.isLower = true := fun c hc =>
      List.mem_takeWhile_imp hc
    unfold capture at h
    simp only at h
    split_ifs at h with hkind hrest hbrackets
    · obtain ⟨rfl, rfl⟩ := Prod.mk.inj (Option.some.inj h)
      rw [hrest, List.append_nil] at hs
      have hword : Captures dot (s.takeWhile Char.isLower) _ none := .word ⟨hkind, hletters⟩
      rwa [hs] at hword ⊢
    · obtain ⟨rfl, rfl⟩ := Prod.mk.inj (Option.some.inj h)
      obtain ⟨hform, hne, hdot⟩ := hbrackets
      have hall : ∀ c ∈ (s.dropWhile Char.isLower).tail.dropLast, dot c = true :=
        List.all_eq_true.mp hdot
      have hbracketed := Captures.bracketed ⟨hkind, hletters⟩ hne hall
      rwa [← hform, hs] at hbracketed
  · intro h
    cases h with
    | word hk =>
      have htake : s.takeWhile Char.isLower = s := by
        have h := takeWhile_append_of_all (t := []) hk.2 (fun c hc => nomatch hc)
        rwa [List.append_nil] at h
      have hdrop : s.dropWhile Char.isLower = [] := by
        have h := dropWhile_append_of_all (t := []) hk.2 (fun c hc => nomatch hc)
        rwa [List.append_nil] at h
      unfold capture
      simp only [htake, hdrop]
      rw [if_neg hk.1, if_pos trivial]
    | @bracketed _ inner hk hne hdot =>
      have hhead : ∀ c ∈ ('<' :: (inner ++ ['>'])).head?, c.isLower = false := by
        intro c hc
        obtain rfl := Option.some.inj hc
        rfl
      have htail : ('<' :: (inner ++ ['>'])).tail.dropLast = inner := List.dropLast_concat
      unfold capture
      simp only [takeWhile_append_of_all hk.2 hhead, dropWhile_append_of_all hk.2 hhead, htail]
      rw [if_neg hk.1, if_neg (List.cons_ne_nil _ _),
        if_pos ⟨trivial, hne, List.all_eq_true.mpr hdot⟩]

/-- What is captured in the brackets is shorter. -/
theorem length_lt_of_capture {dot : Char → Bool} {s kind inner : List Char}
    (h : capture dot s = some (kind, some inner)) : inner.length < s.length := by
  cases capture_eq_some_iff.mp h with
  | bracketed hk hne hdot =>
    simp only [List.length_append, List.length_cons]
    omega

theorem ne_nil_of_capture {dot : Char → Bool} {s kind inner : List Char}
    (h : capture dot s = some (kind, some inner)) : inner ≠ [] := by
  cases capture_eq_some_iff.mp h with
  | bracketed hk hne hdot => exact hne

/-! ## Spellings -/

/-- How a language reads such texts: its white space, and what its `.` matches. -/
structure Dialect where
  space : Char → Bool
  dot : Char → Bool

/-- The characters of the texts themselves. -/
def IsMark (c : Char) : Prop := c.isLower = true ∨ c = '<' ∨ c = '>'

/-- Words that stand alone, and words that take an argument. -/
structure Vocabulary where
  plain : List Char → Prop
  generic : List Char → Prop
  word_of_plain : ∀ k, plain k → IsWord k
  word_of_generic : ∀ k, generic k → IsWord k

/-- The texts that spell a word of the vocabulary with its arguments. -/
inductive Spelling (V : Vocabulary) (D : Dialect) : List Char → Prop
  | plain {w k w' : List Char} (hk : V.plain k) (hw : ∀ c ∈ w, D.space c = true)
    (hw' : ∀ c ∈ w', D.space c = true) : Spelling V D (w ++ k ++ w')
  | generic {w k inner w' : List Char} (hk : V.generic k) (hw : ∀ c ∈ w, D.space c = true)
    (hw' : ∀ c ∈ w', D.space c = true) (hdot : ∀ c ∈ inner, D.dot c = true)
    (h : Spelling V D inner) : Spelling V D (w ++ (k ++ '<' :: (inner ++ ['>'])) ++ w')

variable {V : Vocabulary} {D : Dialect}

theorem IsWord.exists_cons {k : List Char} (h : IsWord k) :
    ∃ c t, k = c :: t ∧ c.isLower = true := by
  obtain ⟨c, t, rfl⟩ := List.exists_cons_of_ne_nil h.1
  exact ⟨c, t, rfl, h.2 c List.mem_cons_self⟩

theorem IsWord.getLast {k : List Char} (h : IsWord k) : ∀ c ∈ k.getLast?, c.isLower = true :=
  fun c hc => h.2 c (List.mem_of_getLast? hc)

theorem Spelling.ne_nil {s : List Char} (h : Spelling V D s) : s ≠ [] := by
  cases h with
  | plain hk hw hw' =>
    have hne := (V.word_of_plain _ hk).1
    simp [hne]
  | generic hk hw hw' hdot h => simp

/-- A text between white space that begins with a word. -/
theorem trim_word {k t w w' : List Char} (hspace : ∀ c, IsMark c → D.space c = false)
    (hk : IsWord k) (ht : ∀ c ∈ (k ++ t).getLast?, IsMark c) (hw : ∀ c ∈ w, D.space c = true)
    (hw' : ∀ c ∈ w', D.space c = true) : trim D.space (w ++ (k ++ t) ++ w') = k ++ t := by
  obtain ⟨c, k', rfl, hc⟩ := hk.exists_cons
  refine trim_append hw hw' (List.cons_ne_nil _ _) ?_ fun c hc => hspace c (ht c hc)
  intro d hd
  obtain rfl := Option.some.inj hd
  exact hspace c (.inl hc)

/-- What a recognizer does with a text: it trims it, matches the expression, and goes on
with what is in the brackets. -/
def Step (V : Vocabulary) (D : Dialect) (valid : List Char → Prop) (s : List Char) : Prop :=
  ∃ kind inner, capture D.dot (trim D.space s) = some (kind, inner) ∧
    (V.plain kind ∧ inner = none ∨ V.generic kind ∧ ∃ i, inner = some i ∧ valid i)

theorem step_iff_of_capture {valid : List Char → Prop} {s kind : List Char}
    {inner : Option (List Char)} (h : capture D.dot (trim D.space s) = some (kind, inner)) :
    Step V D valid s ↔
      V.plain kind ∧ inner = none ∨ V.generic kind ∧ ∃ i, inner = some i ∧ valid i := by
  constructor
  · rintro ⟨kind', inner', h', hkind⟩
    obtain ⟨rfl, rfl⟩ := Prod.mk.inj (Option.some.inj (h.symm.trans h'))
    exact hkind
  · exact fun hkind => ⟨kind, inner, h, hkind⟩

theorem not_step_of_capture {valid : List Char → Prop} {s : List Char}
    (h : capture D.dot (trim D.space s) = none) : ¬ Step V D valid s := by
  rintro ⟨kind, inner, hsome, -⟩
  rw [h] at hsome
  cases hsome

/-- **A recognizer accepts the spellings of its dialect.** -/
theorem spelling_of_step {valid : List Char → Prop} (hspace : ∀ c, IsMark c → D.space c = false)
    (hstep : ∀ s, valid s ↔ Step V D valid s) (s : List Char) : valid s ↔ Spelling V D s := by
  constructor
  · -- what is in the brackets is shorter than the text
    intro h
    induction hn : s.length using Nat.strong_induction_on generalizing s with
    | _ n ih =>
      obtain ⟨kind, inner, hcapture, hkind⟩ := (hstep s).mp h
      obtain ⟨w, w', hs, hw, hw'⟩ := exists_trim D.space s
      have hcaptures := capture_eq_some_iff.mp hcapture
      rcases hkind with ⟨hplain, rfl⟩ | ⟨hgeneric, i, rfl, hi⟩
      · generalize trim D.space s = t at hs hcaptures
        cases hcaptures with
        | word hk =>
          rw [hs]
          exact .plain hplain hw hw'
      · have hlt : i.length < n := by
          have hinner := length_lt_of_capture hcapture
          have htrim := length_trim_le D.space s
          omega
        have hspelling := ih i.length hlt i hi rfl
        generalize trim D.space s = t at hs hcaptures
        cases hcaptures with
        | bracketed hk hne hdot =>
          rw [hs]
          exact .generic hgeneric hw hw' hdot hspelling
  · intro h
    induction h with
    | @plain w k w' hk hw hw' =>
      have hword := V.word_of_plain k hk
      have htrim : trim D.space (w ++ k ++ w') = k := by
        have h := trim_word (t := []) hspace hword ?_ hw hw'
        · rwa [List.append_nil] at h
        · rw [List.append_nil]
          exact fun c hc => .inl (hword.getLast c hc)
      refine (hstep _).mpr ⟨k, none, ?_, .inl ⟨hk, rfl⟩⟩
      rw [htrim]
      exact capture_eq_some_iff.mpr (.word hword)
    | @generic w k inner w' hk hw hw' hdot h ih =>
      have hword := V.word_of_generic k hk
      have htrim : trim D.space (w ++ (k ++ '<' :: (inner ++ ['>'])) ++ w') =
          k ++ '<' :: (inner ++ ['>']) := by
        refine trim_word hspace hword (fun c hc => .inr (.inr ?_)) hw hw'
        rw [← List.cons_append, ← List.append_assoc, List.getLast?_concat] at hc
        exact (Option.some.inj hc).symm
      refine (hstep _).mpr ⟨k, some inner, ?_, .inr ⟨hk, inner, rfl, ih⟩⟩
      rw [htrim]
      exact capture_eq_some_iff.mpr (.bracketed hword h.ne_nil hdot)

/-! ## A dialect and a wider one -/

/-- What is between the first opening and the last closing bracket. -/
def inside (s : List Char) : List Char :=
  (((s.dropWhile (· ≠ '<')).tail.reverse).dropWhile (· ≠ '>')).tail.reverse

theorem inside_bracketed {w k inner w' : List Char} (hw : ∀ c ∈ w, c ≠ '<') (hk : ∀ c ∈ k, c ≠ '<')
    (hw' : ∀ c ∈ w', c ≠ '>') : inside (w ++ (k ++ '<' :: (inner ++ ['>'])) ++ w') = inner := by
  have hbefore : ∀ c ∈ w ++ k, decide (c ≠ '<') = true := by
    intro c hc
    rcases List.mem_append.mp hc with hc | hc
    · exact decide_eq_true (hw c hc)
    · exact decide_eq_true (hk c hc)
  have hafter : ∀ c ∈ w'.reverse, decide (c ≠ '>') = true := fun c hc =>
    decide_eq_true (hw' c (List.mem_reverse.mp hc))
  have hform : w ++ (k ++ '<' :: (inner ++ ['>'])) ++ w' =
      (w ++ k) ++ '<' :: (inner ++ '>' :: w') := by simp
  have hback : (inner ++ '>' :: w').reverse = w'.reverse ++ '>' :: inner.reverse := by simp
  rw [inside, hform, dropWhile_append_of_all hbefore (by simp), List.tail_cons, hback,
    dropWhile_append_of_all hafter (by simp), List.tail_cons, List.reverse_reverse]

/-- Texts without an opening bracket have nothing inside. -/
theorem inside_of_not_mem {s : List Char} (h : '<' ∉ s) : inside s = [] := by
  have hdrop : s.dropWhile (· ≠ '<') = [] := by
    rw [List.dropWhile_eq_nil_iff]
    intro c hc
    exact decide_eq_true fun heq => h (heq ▸ hc)
  rw [inside, hdrop]
  rfl

/-- What is inside is part of the text. -/
theorem inside_subset (s : List Char) : inside s ⊆ s := by
  intro c hc
  have htail := List.mem_of_mem_tail (List.mem_reverse.mp hc)
  have hdrop := List.mem_reverse.mp ((List.dropWhile_sublist _).subset htail)
  exact (List.dropWhile_sublist _).subset (List.mem_of_mem_tail hdrop)

theorem mark_of_word {k : List Char} (hk : IsWord k) : ∀ c ∈ k, IsMark c := fun c hc =>
  .inl (hk.2 c hc)

theorem ne_of_isLower {c d : Char} (hc : c.isLower = true) (hd : d.isLower = false) : c ≠ d := by
  rintro rfl
  rw [hc] at hd
  exact Bool.noConfusion hd

variable {D' : Dialect}

/-- **The spellings of a dialect among those of a wider one** are those that use none of
the white space, and inside the brackets none of the characters, which only the wider one
has. -/
theorem Spelling.strict_iff (hspace : ∀ c, D.space c = true → D'.space c = true)
    (hdot : ∀ c, D.dot c = true → D'.dot c = true) (hmark : ∀ c, IsMark c → D'.space c = false)
    (s : List Char) :
    Spelling V D s ↔ Spelling V D' s ∧ (∀ c ∈ s, D'.space c = true → D.space c = true) ∧
      ∀ c ∈ inside s, D.dot c = true := by
  have hkeeps : ∀ {w : List Char}, (∀ c ∈ w, D.space c = true) → ∀ c ∈ w, D'.space c = true :=
    fun hw c hc => hspace c (hw c hc)
  have hnot : ∀ {w : List Char}, (∀ c ∈ w, D'.space c = true) → ∀ d, IsMark d → ∀ c ∈ w, c ≠ d := by
    rintro w hw d hd c hc rfl
    have hspaced := hw c hc
    rw [hmark c hd] at hspaced
    exact Bool.noConfusion hspaced
  have hmarked : ∀ {k : List Char}, (∀ c ∈ k, IsMark c) →
      ∀ c ∈ k, D'.space c = true → D.space c = true := by
    intro k hk c hc hspaced
    rw [hmark c (hk c hc)] at hspaced
    exact Bool.noConfusion hspaced
  have hopen : IsMark '<' := .inr (.inl rfl)
  have hclose : IsMark '>' := .inr (.inr rfl)
  constructor
  · intro h
    induction h with
    | @plain w k w' hk hw hw' =>
      have hword := V.word_of_plain k hk
      refine ⟨.plain hk (hkeeps hw) (hkeeps hw'), ?_, ?_⟩
      · simp only [List.forall_mem_append]
        exact ⟨⟨fun c hc _ => hw c hc, hmarked (mark_of_word hword)⟩, fun c hc _ => hw' c hc⟩
      · rw [inside_of_not_mem]
        · exact fun _ hc => nomatch hc
        · simp only [List.mem_append, not_or]
          exact ⟨⟨fun h => hnot (hkeeps hw) _ hopen _ h rfl,
            fun h => ne_of_isLower (hword.2 _ h) rfl rfl⟩,
            fun h => hnot (hkeeps hw') _ hopen _ h rfl⟩
    | @generic w k inner w' hk hw hw' hinner h ih =>
      have hword := V.word_of_generic k hk
      refine ⟨.generic hk (hkeeps hw) (hkeeps hw') (fun c hc => hdot c (hinner c hc)) ih.1, ?_, ?_⟩
      · simp only [List.forall_mem_append, List.forall_mem_cons]
        refine ⟨⟨fun c hc _ => hw c hc, hmarked (mark_of_word hword), ?_, ih.2.1, ?_, ?_⟩,
          fun c hc _ => hw' c hc⟩
        · exact fun hspaced => Bool.noConfusion ((hmark _ hopen).symm.trans hspaced)
        · exact fun hspaced => Bool.noConfusion ((hmark _ hclose).symm.trans hspaced)
        · exact fun _ hc => nomatch hc
      · rw [inside_bracketed (hnot (hkeeps hw) _ hopen)
          (fun c hc => ne_of_isLower (hword.2 c hc) rfl) (hnot (hkeeps hw') _ hclose)]
        exact hinner
  · rintro ⟨h, hstrict, hinside⟩
    induction h with
    | @plain w k w' hk hw hw' =>
      simp only [List.forall_mem_append] at hstrict
      exact .plain hk (fun c hc => hstrict.1.1 c hc (hw c hc)) fun c hc => hstrict.2 c hc (hw' c hc)
    | @generic w k inner w' hk hw hw' hinner h ih =>
      have hword := V.word_of_generic k hk
      rw [inside_bracketed (hnot hw _ hopen) (fun c hc => ne_of_isLower (hword.2 c hc) rfl)
        (hnot hw' _ hclose)] at hinside
      simp only [List.forall_mem_append, List.forall_mem_cons] at hstrict
      obtain ⟨⟨hstrictw, -, -, hstricti, -⟩, hstrictw'⟩ := hstrict
      refine .generic hk (fun c hc => hstrictw c hc (hw c hc))
        (fun c hc => hstrictw' c hc (hw' c hc)) hinside (ih hstricti fun c hc => ?_)
      -- what is inside the inner brackets is inside the outer ones
      exact hinside c (inside_subset inner hc)

end Bracketed
