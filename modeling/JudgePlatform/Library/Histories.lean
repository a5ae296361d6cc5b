/-
# Histories that keep refusals

What a program has asked for so far may matter also where it was refused: a write that failed
and is only logged, a message whose copy could not be sent.  `Records` is the logic of one
program over such a history, into which `note` enters each answer and each refusal.

* `Records.attempt_bind` : the rule for a program whose error is looked at.
* `Records.expand` : what is known of the requests of one level, for a program of the level above.
* `Records.of_obeys` : requests that leave no note.
-/
import JudgePlatform.Library.Expansion

namespace Program

variable {Request Request' : Type} {Reply : Request → Type} {Reply' : Request' → Type}
  {ε α β History : Type}

/-- Every request satisfies `P` at the history that the program then has, and every end
satisfies `Q`, as long as the answers and refusals satisfy `A`. -/
def Records (note : History → (r : Request) → Except ε (Reply r) → History)
    (A : (r : Request) → Except ε (Reply r) → Prop) (P : History → Request → Prop)
    (Q : History → Except ε α → Prop) : History → Program Reply ε α → Prop
  | h, done a => Q h (.ok a)
  | h, fail e => Q h (.error e)
  | h, ask r next => P h r ∧ ∀ x, A r x → Records note A P Q (note h r x) (next x)

variable {note : History → (r : Request) → Except ε (Reply r) → History}
  {note' : History → (r : Request') → Except ε (Reply' r) → History}
  {A : (r : Request) → Except ε (Reply r) → Prop}
  {A' : (r : Request') → Except ε (Reply' r) → Prop}
  {P : History → Request → Prop} {P' : History → Request' → Prop}
  {Q : History → Except ε α → Prop} {R : History → Except ε β → Prop} {h : History}

theorem Records.mono {Q' : History → Except ε α → Prop} {p : Program Reply ε α}
    (hp : p.Records note A P Q h) (hQ : ∀ h x, Q h x → Q' h x) : p.Records note A P Q' h := by
  induction p generalizing h with
  | done a => exact hQ _ _ hp
  | fail e => exact hQ _ _ hp
  | ask r next ih => exact ⟨hp.1, fun x hx => ih x (hp.2 x hx)⟩

theorem Records.call {r : Request} {Q : History → Except ε (Reply r) → Prop} (hr : P h r)
    (hQ : ∀ x, A r x → Q (note h r x) x) :
    (call r : Program Reply ε (Reply r)).Records note A P Q h := by
  refine ⟨hr, fun x hx => ?_⟩
  cases x with
  | ok a => exact hQ (.ok a) hx
  | error e => exact hQ (.error e) hx

/-- The rule of sequencing. -/
theorem Records.bind {p : Program Reply ε α} {f : α → Program Reply ε β}
    (hp : p.Records note A P Q h) (hok : ∀ h a, Q h (.ok a) → (f a).Records note A P R h)
    (herror : ∀ h e, Q h (.error e) → R h (.error e)) : (p >>= f).Records note A P R h := by
  induction p generalizing h with
  | done a => exact hok h a hp
  | fail e => exact herror h e hp
  | ask r next ih => exact ⟨hp.1, fun x hx => ih x (hp.2 x hx)⟩

/-- The rule for a program whose end is looked at, whatever it is. -/
theorem Records.attempt_bind {p : Program Reply ε α} {k : Except ε α → Program Reply ε β}
    (hp : p.Records note A P Q h) (hk : ∀ h x, Q h x → (k x).Records note A P R h) :
    (p.attempt.bind k).Records note A P R h := by
  induction p generalizing h with
  | done a => exact hk h _ hp
  | fail e => exact hk h _ hp
  | ask r next ih => exact ⟨hp.1, fun x hx => ih x (hp.2 x hx)⟩

/-- The rule of a request whose refusal is looked at. -/
theorem Records.try_bind {r : Request} {g : Option (Reply r) → Program Reply ε β} (hr : P h r)
    (hg : ∀ x, A r x → (g x.toOption).Records note A P R (note h r x)) :
    ((tryCatch (some <$> Program.call r) fun _ => pure none) >>= g).Records note A P R h := by
  refine ⟨hr, fun x hx => ?_⟩
  cases x with
  | ok a => exact hg (.ok a) hx
  | error e => exact hg (.error e) hx

/-- Requests that are served by programs of the level below. -/
theorem Records.expand {f : (r : Request) → Program Reply' ε (Reply r)} {p : Program Reply ε α}
    (hf : ∀ h r, P h r → (f r).Records note' A' P' (fun h' x => h' = note h r x ∧ A r x) h)
    (hp : p.Records note A P Q h) : (p.expand f).Records note' A' P' Q h := by
  induction p generalizing h with
  | done a => exact hp
  | fail e => exact hp
  | ask r next ih =>
    refine (hf h r hp.1).attempt_bind ?_
    rintro h' x ⟨rfl, hx⟩
    exact ih x (hp.2 x hx)

/-- A program whose requests leave no note ends with the history that it began with. -/
theorem Records.of_obeys {View : Type} {look : View → (r : Request) → Reply r → View}
    {S : Request → Prop} {T : Except ε α → Prop} {v : View} {p : Program Reply ε α}
    (hp : p.Obeys look (fun _ r => S r) (fun _ x => T x) v) (hS : ∀ r, S r → P h r)
    (hnote : ∀ r x, S r → note h r x = h) :
    p.Records note A P (fun h' x => h' = h ∧ T x) h := by
  induction p generalizing v with
  | done a => exact ⟨rfl, hp⟩
  | fail e => exact ⟨rfl, hp⟩
  | ask r next ih =>
    refine ⟨hS r hp.1, fun x _ => ?_⟩
    rw [hnote r x hp.1]
    cases x with
    | ok a => exact ih _ (hp.2.1 a)
    | error e => exact ih _ (hp.2.2 e)

end Program
