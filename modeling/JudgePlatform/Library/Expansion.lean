/-
# Programs whose requests are programs

A request at one level is often a program at the level below: a check that asks a
database, a message that is sent over a connection.  `expand f` answers each request
`r` of a program by running `f r`, and hands the program what `f r` returned or threw.

* `After` : what holds once a program has ended that runs alone.
* `Obeys.expand` : a specification of the program and one of each `f r`, joined by a
  relation of their views, give a specification of the expanded program.
* `Obeys.frame` : requests that a view does not notice leave it as it was.
* `Obeys.eval` : what each request keeps of the store, a program alone keeps.
-/
import JudgePlatform.Library.Program

namespace Program

variable {Request Request' : Type} {Reply : Request → Type} {Reply' : Request' → Type}
  {ε α β : Type}

/-- Return an error instead of throwing it. -/
def attempt : Program Reply ε α → Program Reply ε (Except ε α)
  | done a => done (.ok a)
  | fail e => done (.error e)
  | ask r next => ask r fun x => (next x).attempt

/-- Run a program for each request. -/
def expand (f : (r : Request) → Program Reply' ε (Reply r)) :
    Program Reply ε α → Program Reply' ε α
  | done a => done a
  | fail e => fail e
  | ask r next => (f r).attempt.bind fun x => (next x).expand f

/-- A program that no request of its own refuses, among others that may be refused. -/
def sure : Program Reply Empty α → Program Reply ε α
  | done a => done a
  | fail e => e.elim
  | ask r next => ask r fun
    | .ok x => (next (.ok x)).sure
    | .error e => fail e

theorem bind_assoc {γ : Type} (p : Program Reply ε α) (g : α → Program Reply ε β)
    (h : β → Program Reply ε γ) : (p.bind g).bind h = p.bind fun a => (g a).bind h := by
  induction p with
  | done a => rfl
  | fail e => rfl
  | ask r next ih =>
    show ask r _ = ask r _
    congr 1
    funext x
    exact ih x

theorem expand_bind (f : (r : Request) → Program Reply' ε (Reply r)) (p : Program Reply ε α)
    (g : α → Program Reply ε β) :
    (p >>= g).expand f = p.expand f >>= fun a => (g a).expand f := by
  show (p.bind g).expand f = (p.expand f).bind fun a => (g a).expand f
  induction p with
  | done a => rfl
  | fail e => rfl
  | ask r next ih =>
    show (f r).attempt.bind _ = ((f r).attempt.bind _).bind _
    rw [bind_assoc]
    congr 1
    funext x
    exact ih x

theorem expand_call (f : (r : Request) → Program Reply' ε (Reply r)) (r : Request) :
    (call r : Program Reply ε (Reply r)).expand f = f r := by
  show (f r).attempt.bind _ = f r
  induction f r with
  | done a => rfl
  | fail e => rfl
  | ask r' next ih =>
    show ask r' _ = ask r' _
    congr 1
    funext x
    exact ih x

/-! ## Evaluation -/

section Eval

variable {Store : Type} (serve : Store → (r : Request) → Except ε (Reply r) × Store)

theorem eval_call (s : Store) (r : Request) :
    eval serve s (call r : Program Reply ε (Reply r)) = serve s r := by
  unfold call
  rw [eval]
  rcases serve s r with ⟨e | x, s'⟩
  · rfl
  · rfl

theorem eval_call_bind (s : Store) (r : Request) (g : Reply r → Program Reply ε α) :
    eval serve s (call r >>= g) =
      match serve s r with
      | (.ok x, s') => eval serve s' (g x)
      | (.error e, s') => (.error e, s') := by
  rw [eval_bind, eval_call]
  rcases serve s r with ⟨e | x, s'⟩
  · rfl
  · rfl

/-- One request of an expanded program, and what is made of its answer. -/
theorem eval_attempt_call_bind (s : Store) (r : Request)
    (g : Except ε (Reply r) → Program Reply ε α) :
    eval serve s ((call r).attempt.bind g) = eval serve (serve s r).2 (g (serve s r).1) := by
  have hask : (call r).attempt.bind g =
      ask r fun x => ((match x with
        | .ok x => done x
        | .error e => fail e : Program Reply ε (Reply r)).attempt.bind g) := rfl
  rw [hask, eval]
  rcases (serve s r).1 with e | x
  · rfl
  · rfl

theorem eval_tryCatch (s : Store) (p : Program Reply ε α) (h : ε → Program Reply ε α) :
    eval serve s (tryCatch p h) =
      match eval serve s p with
      | (.ok a, s') => (.ok a, s')
      | (.error e, s') => eval serve s' (h e) := by
  induction p generalizing s with
  | done a => rfl
  | fail e => rfl
  | ask r next ih => exact ih _ _

/-- What holds of the end of a program and of the store that it leaves. -/
def After (s : Store) (p : Program Reply ε α) (Q : Except ε α → Store → Prop) : Prop :=
  Q (eval serve s p).1 (eval serve s p).2

variable {serve} {s : Store} {Q : Except ε α → Store → Prop}

theorem After.bind {p : Program Reply ε β} {f : β → Program Reply ε α}
    {Q' : Except ε β → Store → Prop} (hp : After serve s p Q')
    (hok : ∀ b s', Q' (.ok b) s' → After serve s' (f b) Q)
    (herror : ∀ e s', Q' (.error e) s' → Q (.error e) s') : After serve s (p >>= f) Q := by
  unfold After at hp ⊢
  rw [eval_bind]
  generalize eval serve s p = ended at hp ⊢
  obtain ⟨e | b, s'⟩ := ended
  · exact herror e s' hp
  · exact hok b s' hp

theorem After.tryCatch {p : Program Reply ε α} {h : ε → Program Reply ε α}
    {Q' : Except ε α → Store → Prop} (hp : After serve s p Q')
    (hok : ∀ a s', Q' (.ok a) s' → Q (.ok a) s')
    (herror : ∀ e s', Q' (.error e) s' → After serve s' (h e) Q) :
    After serve s (tryCatch p h) Q := by
  unfold After at hp ⊢
  rw [eval_tryCatch]
  generalize eval serve s p = ended at hp ⊢
  obtain ⟨e | a, s'⟩ := ended
  · exact herror e s' hp
  · exact hok a s' hp

theorem After.call {r : Request} {Q : Except ε (Reply r) → Store → Prop}
    (h : Q (serve s r).1 (serve s r).2) : After serve s (call r) Q := by
  unfold After
  rwa [eval_call]

theorem After.ite {c : Prop} [Decidable c] {p q : Program Reply ε α}
    (hp : c → After serve s p Q) (hq : ¬c → After serve s q Q) :
    After serve s (if c then p else q) Q := by
  split
  · rename_i hc
    exact hp hc
  · rename_i hc
    exact hq hc

theorem After.mono {Q' : Except ε α → Store → Prop} {p : Program Reply ε α}
    (hp : After serve s p Q') (h : ∀ x s', Q' x s' → Q x s') : After serve s p Q := h _ _ hp

end Eval

/-! ## Rules -/

section Obeys

variable {View View' : Type} {look : View → (r : Request) → Reply r → View}
  {look' : View' → (r : Request') → Reply' r → View'} {P : View → Request → Prop}
  {Q : View → Except ε α → Prop} {v : View}

theorem Obeys.attempt {p : Program Reply ε α} (h : Obeys look P Q v p) :
    Obeys look P (fun w y => ∃ x, y = .ok x ∧ Q w x) v p.attempt := by
  induction p generalizing v with
  | done a => exact ⟨_, rfl, h⟩
  | fail e => exact ⟨_, rfl, h⟩
  | ask r next ih => exact ⟨h.1, fun x => ih _ (h.2.1 x), fun e => ih _ (h.2.2 e)⟩

/-- What a view is told by a request and its answer. -/
def told (look : View → (r : Request) → Reply r → View) (v : View) (r : Request) :
    Except ε (Reply r) → View
  | .ok x => look v r x
  | .error _ => v

/-- **The rule of expansion.**  The views of the two levels stay related by `R`. -/
theorem Obeys.expand {R : View → View' → Prop} {P' : View' → Request' → Prop}
    {f : (r : Request) → Program Reply' ε (Reply r)} {p : Program Reply ε α} {v' : View'}
    (hp : Obeys look P Q v p)
    (hf : ∀ w w' r, R w w' → P w r →
      Obeys look' P' (fun u x => R (told look w r x) u) w' (f r))
    (hR : R v v') :
    Obeys look' P' (fun u x => ∃ w, R w u ∧ Q w x) v' (p.expand f) := by
  induction p generalizing v v' with
  | done a => exact ⟨v, hR, hp⟩
  | fail e => exact ⟨v, hR, hp⟩
  | ask r next ih =>
    refine Obeys.bind (hf v v' r hR hp.1).attempt (fun u y hy => ?_) fun u e hy => ?_
    · obtain ⟨x, hx, hu⟩ := hy
      rw [Except.ok.inj hx]
      cases x with
      | ok a => exact ih _ (hp.2.1 a) hu
      | error e => exact ih _ (hp.2.2 e) hu
    · obtain ⟨x, hx, -⟩ := hy
      cases hx

/-- Where nothing is refused a specification says nothing about refusals; a refusal ends the
program at once, at the view that the request was made with. -/
theorem Obeys.sure {p : Program Reply Empty α} {Q : View → Except Empty α → Prop}
    {Q' : View → Except ε α → Prop} (hp : Obeys look P Q v p)
    (hok : ∀ w a, Q w (.ok a) → Q' w (.ok a)) (herror : ∀ w r e, P w r → Q' w (.error e)) :
    Obeys look P Q' v (p.sure : Program Reply ε α) := by
  induction p generalizing v with
  | done a => exact hok v a hp
  | fail e => exact e.elim
  | ask r next ih =>
    rw [Program.sure]
    exact ⟨hp.1, fun x => ih _ (hp.2.1 x), fun e => herror v r e hp.1⟩

/-- Requests that a view does not notice leave it as it was. -/
theorem Obeys.frame {look' : View' → (r : Request) → Reply r → View'} {S : Request → Prop}
    {P' : View' → Request → Prop} {v' : View'} {p : Program Reply ε α}
    (hp : Obeys look (fun _ r => S r) Q v p) (hstay : ∀ r x, S r → look' v' r x = v')
    (hP : ∀ r, S r → P' v' r) : Obeys look' P' (fun w _ => w = v') v' p := by
  induction p generalizing v with
  | done a => exact rfl
  | fail e => exact rfl
  | ask r next ih =>
    refine ⟨hP r hp.1, fun x => ?_, fun e => ih _ (hp.2.2 e)⟩
    rw [hstay r x hp.1]
    exact ih _ (hp.2.1 x)

/-- **What each request keeps, a program alone keeps.** -/
theorem Obeys.eval {Store : Type} {serve : Store → (r : Request) → Except ε (Reply r) × Store}
    {S : Request → Prop} {K : Store → Prop} {p : Program Reply ε α} {s : Store}
    (hp : Obeys look (fun _ r => S r) Q v p) (hserve : ∀ s r, S r → K s → K (serve s r).2)
    (hs : K s) : K (eval serve s p).2 := by
  induction p generalizing v s with
  | done a => exact hs
  | fail e => exact hs
  | ask r next ih =>
    show K (Program.eval serve (serve s r).2 (next (serve s r).1)).2
    have hnext : K (serve s r).2 := hserve s r hp.1 hs
    cases hx : (serve s r).1 with
    | ok a => exact ih _ (hp.2.1 a) hnext
    | error e => exact ih _ (hp.2.2 e) hnext

/-- A program alone ends as it is specified to. -/
theorem Obeys.eval_ends {Store : Type}
    {serve : Store → (r : Request) → Except ε (Reply r) × Store} {p : Program Reply ε α} {s : Store}
    (hp : Obeys look P Q v p) : ∃ w, Q w (Program.eval serve s p).1 := by
  induction p generalizing v s with
  | done a => exact ⟨v, hp⟩
  | fail e => exact ⟨v, hp⟩
  | ask r next ih =>
    show ∃ w, Q w (Program.eval serve (serve s r).2 (next (serve s r).1)).1
    cases (serve s r).1 with
    | ok a => exact ih _ (hp.2.1 a)
    | error e => exact ih _ (hp.2.2 e)

end Obeys

end Program
