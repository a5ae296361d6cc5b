/-
# First-fit matching

Two lists are matched greedily: each element of the first takes the first element of the
second that it accepts and that is still there.  Whether this succeeds depends on the
order in which the elements are paired, unless acceptance is difunctional.

* `firstFit_iff_equiv` : first fit succeeds just when there is a bijection of positions
  under which nothing that an element accepts is passed over for a later one.
* `matched_of_firstFit`, `firstFit_of_matched` : first fit finds only matchings, and finds
  one whenever there is one and acceptance is difunctional.
* `Matched.symm`, `Matched.trans` : matchings under a relation that is symmetric, or
  transitive.
-/
import Mathlib

namespace Matching

variable {α β γ : Type*}

/-- Every element of the first list takes the first element of the second that it accepts;
the second list holds what is still there. -/
def firstFit (R : α → β → Bool) : List α → List β → Bool
  | [], _ => true
  | a :: as, bs =>
    match bs.findIdx? fun b => R a b with
    | none => false
    | some i => firstFit R as (bs.eraseIdx i)

variable {R : α → β → Bool}

/-- One turn of the loop. -/
theorem firstFit_cons {a : α} {as : List α} {bs : List β} :
    firstFit R (a :: as) bs = true ↔ ∃ pre b post, bs = pre ++ b :: post ∧
      (∀ x ∈ pre, R a x = false) ∧ R a b = true ∧ firstFit R as (pre ++ post) = true := by
  rw [firstFit]
  constructor
  · intro h
    cases hfind : bs.findIdx? fun b => R a b with
    | none =>
      rw [hfind] at h
      exact Bool.noConfusion h
    | some i =>
      rw [hfind] at h
      obtain ⟨hi, hfits, hbefore⟩ := List.findIdx?_eq_some_iff_getElem.mp hfind
      refine ⟨bs.take i, bs[i], bs.drop (i + 1), ?_, ?_, hfits, ?_⟩
      · rw [List.cons_getElem_drop_succ, List.take_append_drop]
      · intro x hx
        obtain ⟨j, hj, rfl⟩ := List.mem_iff_getElem.mp hx
        rw [List.length_take] at hj
        rw [List.getElem_take]
        exact Bool.not_eq_true _ ▸ hbefore j (by omega)
      · rw [← List.eraseIdx_eq_take_drop_succ]
        exact h
  · rintro ⟨pre, b, post, rfl, hpre, hb, hrest⟩
    have hfind : (pre ++ b :: post).findIdx? (fun b => R a b) = some pre.length := by
      rw [List.findIdx?_eq_some_iff_getElem]
      refine ⟨by simp, ?_, fun j hj => ?_⟩
      · rw [List.getElem_append_right le_rfl]
        simpa using hb
      · rw [List.getElem_append_left hj, hpre _ (List.getElem_mem hj)]
        exact Bool.false_ne_true
    rw [hfind]
    simp only
    rw [List.eraseIdx_append_of_length_le le_rfl, Nat.sub_self, List.eraseIdx_cons_zero]
    exact hrest

/-! ## Which position each element takes -/

variable {ι : Type*} [LinearOrder ι]

/-- A position among others in order, and the others without it. -/
theorem sorted_split {x : ι} {pre post : List ι} (h : (pre ++ x :: post).Pairwise (· < ·)) :
    (∀ y ∈ pre, y < x) ∧ (∀ y ∈ post, x < y) ∧ (pre ++ post).Pairwise (· < ·) := by
  obtain ⟨-, hpost, hbetween⟩ := List.pairwise_append.mp h
  refine ⟨fun y hy => hbetween y hy x List.mem_cons_self, (List.pairwise_cons.mp hpost).1, ?_⟩
  exact h.sublist (List.Sublist.append_left (List.sublist_cons_self x post) pre)

/-- First fit among the elements at some positions, in their order: the positions that are
taken, each being the first acceptable one that is not taken before. -/
theorem firstFit_map_iff (b : ι → β) {as : List α} {rest : List ι}
    (hsorted : rest.Pairwise (· < ·)) :
    firstFit R as (rest.map b) = true ↔ ∃ js : List ι, js.length = as.length ∧ js.Nodup ∧
      (∀ j ∈ js, j ∈ rest) ∧ ∀ k (h : k < as.length) (h' : k < js.length),
        R as[k] (b js[k]) = true ∧
          ∀ j ∈ rest, j < js[k] → R as[k] (b j) = true → j ∈ js.take k := by
  induction as generalizing rest with
  | nil =>
    refine iff_of_true rfl ⟨[], rfl, List.nodup_nil, ?_, ?_⟩
    · exact fun j h => absurd h List.not_mem_nil
    · exact fun k h => absurd h (Nat.not_lt_zero k)
  | cons a as ih =>
    rw [firstFit_cons]
    constructor
    · rintro ⟨pre', x', post', hrest, hpre, hx, hnext⟩
      obtain ⟨pre, tail, rfl, rfl, htail⟩ := List.map_eq_append_iff.mp hrest
      obtain ⟨x, post, rfl, rfl, rfl⟩ := List.map_eq_cons_iff.mp htail
      rw [← List.map_append] at hnext
      obtain ⟨hbefore, hafter, hsorted'⟩ := sorted_split hsorted
      obtain ⟨js, hlength, hnodup, hmem, hfirst⟩ := (ih hsorted').mp hnext
      refine ⟨x :: js, by rw [List.length_cons, List.length_cons, hlength], ?_, ?_, ?_⟩
      · refine List.nodup_cons.mpr ⟨fun hxjs => ?_, hnodup⟩
        rcases List.mem_append.mp (hmem x hxjs) with h | h
        · exact lt_irrefl x (hbefore x h)
        · exact lt_irrefl x (hafter x h)
      · refine List.forall_mem_cons.mpr ⟨by simp, fun j hj => ?_⟩
        have := hmem j hj
        rw [List.mem_append] at this
        simp only [List.mem_append, List.mem_cons]
        tauto
      · intro k hk hk'
        cases k with
        | zero =>
          refine ⟨hx, fun j hj hlt hR => ?_⟩
          rcases List.mem_append.mp hj with h | h
          · have hfalse := hpre (b j) (List.mem_map_of_mem h)
            exact Bool.noConfusion (hfalse.symm.trans hR)
          · rcases List.mem_cons.mp h with rfl | h
            · exact absurd hlt (lt_irrefl _)
            · exact absurd hlt (hafter j h).not_gt
        | succ k =>
          obtain ⟨hR, hrest⟩ := hfirst k (Nat.lt_of_succ_lt_succ hk) (Nat.lt_of_succ_lt_succ hk')
          refine ⟨hR, fun j hj hlt hRj => ?_⟩
          rw [List.take_succ_cons, List.mem_cons]
          by_cases hjx : j = x
          · exact .inl hjx
          · refine .inr (hrest j ?_ hlt hRj)
            simp only [List.mem_append, List.mem_cons] at hj ⊢
            tauto
    · rintro ⟨js, hlength, hnodup, hmem, hfirst⟩
      obtain ⟨x, js, rfl⟩ : ∃ x js', js = x :: js' := by
        cases js with
        | nil => exact absurd hlength (Nat.succ_ne_zero _).symm
        | cons x js => exact ⟨x, js, rfl⟩
      obtain ⟨hxjs, hnodup⟩ := List.nodup_cons.mp hnodup
      obtain ⟨pre, post, rfl⟩ := List.append_of_mem (hmem x List.mem_cons_self)
      obtain ⟨hbefore, hafter, hsorted'⟩ := sorted_split hsorted
      obtain ⟨hx, hxfirst⟩ := hfirst 0 (Nat.succ_pos _) (Nat.succ_pos _)
      refine ⟨pre.map b, b x, post.map b, by simp, ?_, hx, ?_⟩
      · intro y hy
        obtain ⟨j, hj, rfl⟩ := List.mem_map.mp hy
        by_contra hR
        exact nomatch hxfirst j (List.mem_append_left _ hj) (hbefore j hj)
          (Bool.not_eq_false _ ▸ hR)
      · rw [← List.map_append]
        refine (ih hsorted').mpr ⟨js, Nat.succ_injective hlength, hnodup, ?_, ?_⟩
        · intro j hj
          have hne : j ≠ x := fun h => hxjs (h ▸ hj)
          have := hmem j (List.mem_cons_of_mem x hj)
          simp only [List.mem_append, List.mem_cons] at this ⊢
          tauto
        · intro k hk hk'
          obtain ⟨hR, hrest⟩ := hfirst (k + 1) (Nat.succ_lt_succ hk) (Nat.succ_lt_succ hk')
          refine ⟨hR, fun j hj hlt hRj => ?_⟩
          have hj' : j ∈ pre ++ x :: post := by
            simp only [List.mem_append, List.mem_cons] at hj ⊢
            tauto
          have htake := hrest j hj' hlt hRj
          rw [List.take_succ_cons, List.mem_cons] at htake
          refine htake.resolve_left ?_
          rintro rfl
          rcases List.mem_append.mp hj with h | h
          · exact lt_irrefl j (hbefore j h)
          · exact lt_irrefl j (hafter j h)

/-- **When first fit succeeds** on lists of one length: there is a bijection between the
positions under which every element accepts its partner, and whatever stands before its
partner and would have been accepted has gone to an earlier element. -/
theorem firstFit_iff_equiv {as : List α} {bs : List β} (hlength : as.length = bs.length) :
    firstFit R as bs = true ↔ ∃ σ : Fin as.length ≃ Fin bs.length,
      (∀ i, R (as.get i) (bs.get (σ i)) = true) ∧
        ∀ i, ∀ j < σ i, R (as.get i) (bs.get j) = true → σ.symm j < i := by
  have hget : bs = (List.finRange bs.length).map bs.get := (List.map_get_finRange bs).symm
  have hsorted : (List.finRange bs.length).Pairwise (· < ·) := List.pairwise_lt_finRange _
  have hrw : firstFit R as bs = firstFit R as ((List.finRange bs.length).map bs.get) :=
    congrArg (firstFit R as) hget
  rw [hrw, firstFit_map_iff bs.get hsorted]
  constructor
  · rintro ⟨js, hjs, hnodup, -, hfirst⟩
    let f : Fin as.length → Fin bs.length := fun i => js[i]
    have hinj : Function.Injective f := by
      intro i i' h
      exact Fin.ext ((List.Nodup.getElem_inj_iff hnodup).mp h)
    have hbij : Function.Bijective f :=
      (Fintype.bijective_iff_injective_and_card f).mpr ⟨hinj, by simp [hlength]⟩
    refine ⟨Equiv.ofBijective f hbij, fun i => ?_, fun i j hlt hR => ?_⟩
    · exact (hfirst i i.2 (by rw [hjs]; exact i.2)).1
    · have htake := (hfirst i i.2 (by rw [hjs]; exact i.2)).2 j (List.mem_finRange j) hlt hR
      obtain ⟨k, hk, hkj⟩ := List.mem_take_iff_getElem.mp htake
      have hki : k < i := by omega
      have hpre : Equiv.ofBijective f hbij ⟨k, by omega⟩ = j := hkj
      rw [← hpre, Equiv.symm_apply_apply]
      exact hki
  · rintro ⟨σ, hR, hfirst⟩
    refine ⟨List.ofFn σ, List.length_ofFn, ?_, fun j _ => List.mem_finRange j, ?_⟩
    · exact List.nodup_ofFn.mpr σ.injective
    · intro k hk hk'
      rw [List.getElem_ofFn]
      refine ⟨hR ⟨k, hk⟩, fun j _ hlt hRj => ?_⟩
      have hbefore := hfirst ⟨k, hk⟩ j hlt hRj
      rw [List.mem_take_iff_getElem]
      refine ⟨σ.symm j, ?_, ?_⟩
      · have hkk : (σ.symm j : ℕ) < k := hbefore
        rw [lt_min_iff]
        exact ⟨hkk, by omega⟩
      · rw [List.getElem_ofFn]
        exact σ.apply_symm_apply j

/-! ## Matchings -/

/-- The elements of the first list accept those of the second, in some order. -/
def Matched (P : α → β → Prop) (as : List α) (bs : List β) : Prop :=
  ∃ bs', List.Forall₂ P as bs' ∧ bs'.Perm bs

/-- First fit finds only matchings. -/
theorem matched_of_firstFit {as : List α} {bs : List β} (hlength : as.length = bs.length)
    (h : firstFit R as bs = true) : Matched (fun a b => R a b = true) as bs := by
  induction as generalizing bs with
  | nil =>
    obtain rfl := List.length_eq_zero_iff.mp hlength.symm
    exact ⟨[], .nil, .nil⟩
  | cons a as ih =>
    obtain ⟨pre, b, post, rfl, -, hb, hrest⟩ := firstFit_cons.mp h
    have hlength' : as.length = (pre ++ post).length := by
      simp only [List.length_append, List.length_cons] at hlength ⊢
      omega
    obtain ⟨bs', hbs', hperm⟩ := ih hlength' hrest
    exact ⟨b :: bs', .cons hb hbs', (hperm.cons b).trans List.perm_middle.symm⟩

/-- In a list that is accepted element by element, an element may be exchanged for one
that its partner accepts too. -/
theorem forall₂_exchange {P : α → β → Prop} {as : List α} {pre post : List β} {b b' : β}
    (h : List.Forall₂ P as (pre ++ b :: post)) (hb : ∀ a ∈ as, P a b → P a b') :
    List.Forall₂ P as (pre ++ b' :: post) := by
  induction pre generalizing as with
  | nil =>
    cases as with
    | nil => cases h
    | cons a as =>
      obtain ⟨hhead, htail⟩ := List.forall₂_cons.mp h
      exact .cons (hb a List.mem_cons_self hhead) htail
  | cons x pre ih =>
    cases as with
    | nil => cases h
    | cons a as =>
      obtain ⟨hhead, htail⟩ := List.forall₂_cons.mp h
      exact .cons hhead (ih htail fun a ha => hb a (List.mem_cons_of_mem _ ha))

/-- **First fit finds a matching** whenever there is one, if two elements that accept
something in common accept the same. -/
theorem firstFit_of_matched {as : List α} {bs : List β}
    (hsame : ∀ a ∈ as, ∀ a' ∈ as, ∀ b ∈ bs, ∀ b' ∈ bs,
      R a b = true → R a' b = true → R a b' = true → R a' b' = true)
    (h : Matched (fun a b => R a b = true) as bs) : firstFit R as bs = true := by
  induction as generalizing bs with
  | nil => rfl
  | cons a as ih =>
    obtain ⟨bs', hbs', hperm⟩ := h
    obtain ⟨b', rest, rfl⟩ : ∃ b' rest, bs' = b' :: rest := by
      cases bs' with
      | nil => cases hbs'
      | cons b' rest => exact ⟨b', rest, rfl⟩
    obtain ⟨hb', hrest⟩ := List.forall₂_cons.mp hbs'
    -- the first that is accepted need not be the partner
    have hmem : b' ∈ bs := hperm.mem_iff.mp List.mem_cons_self
    cases hfind : bs.findIdx? fun b => R a b with
    | none =>
      rw [List.findIdx?_eq_none_iff.mp hfind b' hmem] at hb'
      exact Bool.noConfusion hb'
    | some i =>
      rw [firstFit, hfind]
      simp only
      obtain ⟨hi, hfits, -⟩ := List.findIdx?_eq_some_iff_getElem.mp hfind
      have hbs : (bs[i] :: bs.eraseIdx i).Perm bs := List.getElem_cons_eraseIdx_perm hi
      refine ih (fun x hx x' hx' y hy y' hy' => ?_) ?_
      · exact hsame x (List.mem_cons_of_mem a hx) x' (List.mem_cons_of_mem a hx') y
          (List.mem_of_mem_eraseIdx hy) y' (List.mem_of_mem_eraseIdx hy')
      · have hcancel : (b' :: rest).Perm (bs[i] :: bs.eraseIdx i) := hperm.trans hbs.symm
        rcases List.mem_cons.mp (hcancel.mem_iff.mpr List.mem_cons_self) with heq | hin
        · rw [heq] at hcancel
          exact ⟨rest, hrest, List.Perm.cons_inv hcancel⟩
        · obtain ⟨pre, post, rfl⟩ := List.append_of_mem hin
          refine ⟨pre ++ b' :: post, forall₂_exchange hrest fun x hx hxi => ?_, ?_⟩
          · exact hsame a List.mem_cons_self x (List.mem_cons_of_mem a hx) bs[i]
              (List.getElem_mem hi) b' hmem hfits hxi hb'
          · have hmove : (bs[i] :: (pre ++ b' :: post)).Perm (b' :: (pre ++ bs[i] :: post)) :=
              ((List.perm_middle.cons _).trans (List.Perm.swap _ _ _)).trans
                (List.perm_middle.symm.cons b')
            exact List.Perm.cons_inv (hmove.trans hcancel)

/-- Related element by element, each being an element of its list. -/
theorem forall₂_mem {P : α → β → Prop} {as : List α} {bs : List β} (h : List.Forall₂ P as bs) :
    List.Forall₂ (fun a b => a ∈ as ∧ b ∈ bs ∧ P a b) as bs := by
  induction h with
  | nil => exact .nil
  | cons hab _ ih =>
    refine .cons ⟨List.mem_cons_self, List.mem_cons_self, hab⟩ (ih.imp ?_)
    exact fun a b h => ⟨List.mem_cons_of_mem _ h.1, List.mem_cons_of_mem _ h.2.1, h.2.2⟩

theorem forall₂_trans {P : α → β → Prop} {Q : β → γ → Prop} {S : α → γ → Prop} {as : List α}
    {bs : List β} {cs : List γ} (hS : ∀ a b c, P a b → Q b c → S a c) (h : List.Forall₂ P as bs)
    (h' : List.Forall₂ Q bs cs) : List.Forall₂ S as cs := by
  induction h generalizing cs with
  | nil =>
    cases h'
    exact .nil
  | cons hab _ ih =>
    cases h' with
    | cons hbc hrest => exact .cons (hS _ _ _ hab hbc) (ih hrest)

theorem Matched.length_eq {P : α → β → Prop} {as : List α} {bs : List β} (h : Matched P as bs) :
    as.length = bs.length := by
  obtain ⟨bs', hbs', hperm⟩ := h
  rw [hbs'.length_eq, hperm.length_eq]

/-- A matched element has a partner on the other side. -/
theorem Matched.exists_left {P : α → β → Prop} {as : List α} {bs : List β} (h : Matched P as bs) :
    ∀ b ∈ bs, ∃ a ∈ as, P a b := by
  obtain ⟨bs', hbs', hperm⟩ := h
  intro b hb
  obtain ⟨i, hi, rfl⟩ := List.mem_iff_getElem.mp (hperm.mem_iff.mpr hb)
  obtain ⟨hlength, hget⟩ := List.forall₂_iff_get.mp hbs'
  have hi' : i < as.length := by omega
  exact ⟨as[i], List.getElem_mem hi', hget i hi' hi⟩

theorem Matched.imp {P Q : α → β → Prop} {as : List α} {bs : List β} (h : Matched P as bs)
    (himp : ∀ a ∈ as, ∀ b ∈ bs, P a b → Q a b) : Matched Q as bs := by
  obtain ⟨bs', hbs', hperm⟩ := h
  refine ⟨bs', (forall₂_mem hbs').imp ?_, hperm⟩
  exact fun a b h => himp a h.1 b (hperm.mem_iff.mp h.2.1) h.2.2

theorem Matched.symm {P : α → β → Prop} {Q : β → α → Prop} {as : List α} {bs : List β}
    (h : Matched P as bs) (hsymm : ∀ a ∈ as, ∀ b ∈ bs, P a b → Q b a) : Matched Q bs as := by
  obtain ⟨bs', hbs', hperm⟩ := h.imp hsymm
  obtain ⟨as', has', hperm'⟩ := List.perm_comp_forall₂ hperm.symm hbs'.flip
  exact ⟨as', has', hperm'⟩

theorem Matched.trans {P : α → β → Prop} {Q : β → γ → Prop} {S : α → γ → Prop} {as : List α}
    {bs : List β} {cs : List γ} (h : Matched P as bs) (h' : Matched Q bs cs)
    (htrans : ∀ a ∈ as, ∀ b ∈ bs, ∀ c ∈ cs, P a b → Q b c → S a c) : Matched S as cs := by
  obtain ⟨bs', hbs', hperm⟩ := h
  obtain ⟨cs', hcs', hperm'⟩ := h'
  obtain ⟨cs'', hcs'', hperm''⟩ := List.perm_comp_forall₂ hperm hcs'
  refine ⟨cs'', forall₂_trans ?_ (forall₂_mem hbs') (forall₂_mem hcs''), hperm''.trans hperm'⟩
  rintro a b c ⟨ha, hb, hab⟩ ⟨-, hc, hbc⟩
  exact htrans a ha b (hperm.mem_iff.mp hb) c ((hperm''.trans hperm').mem_iff.mp hc) hab hbc

end Matching
