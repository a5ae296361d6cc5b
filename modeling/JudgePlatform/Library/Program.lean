/-
# Programs that ask, and their interleavings

A program performs its effects by asking.  Each request is answered, or refused
with an error, and the program goes on with what it hears; between two requests
nothing else can intervene.  `Program` is a monad in which a refused request
throws its error, so that an asynchronous function reads here as it is written.

Calls of such programs run side by side over one store: in each step one call
has its pending request served.  What a call has seen so far is its `View`, a
history variable folded over the answers.

* `Obeys P Q` is the logic of one program: every request it makes satisfies `P`
  at the view it then has, and every way it ends satisfies `Q`.
* `Reachable` interleavings inherit it: `CallsObey` is an invariant, and
  `step_cases` says what a step does to the store and to the calls.
-/
import JudgePlatform.Library.TransitionSystem

/-- A program over the requests answered by `Reply`. -/
inductive Program {Request : Type} (Reply : Request → Type) (ε α : Type) : Type where
  | done (a : α)
  | fail (e : ε)
  | ask (r : Request) (next : Except ε (Reply r) → Program Reply ε α)

namespace Program

variable {Request : Type} {Reply : Request → Type} {ε α β : Type}

/-- Go on with the value a program returns; an error is passed on. -/
def bind : Program Reply ε α → (α → Program Reply ε β) → Program Reply ε β
  | done a, f => f a
  | fail e, _ => fail e
  | ask r next, f => ask r fun x => (next x).bind f

/-- Go on with the error a program throws. -/
def handle : Program Reply ε α → (ε → Program Reply ε α) → Program Reply ε α
  | done a, _ => done a
  | fail e, h => h e
  | ask r next, h => ask r fun x => (next x).handle h

instance : Monad (Program Reply ε) where
  pure := done
  bind := bind

instance : MonadExceptOf ε (Program Reply ε) where
  throw := fail
  tryCatch := handle

/-- Make one request; its refusal is thrown. -/
def call (r : Request) : Program Reply ε (Reply r) :=
  ask r fun
    | .ok x => done x
    | .error e => fail e

/-- Whether a program has returned. -/
def isDone : Program Reply ε α → Bool
  | done _ => true
  | _ => false

/-- The request that a program waits for. -/
def pending : Program Reply ε α → Option Request
  | ask r _ => some r
  | _ => none

/-! ## A program alone -/

section Eval

variable {Store : Type} (serve : Store → (r : Request) → Except ε (Reply r) × Store)

/-- Run a program with every request served in turn. -/
def eval : Store → Program Reply ε α → Except ε α × Store
  | s, done a => (.ok a, s)
  | s, fail e => (.error e, s)
  | s, ask r next => eval (serve s r).2 (next (serve s r).1)

theorem eval_bind (s : Store) (p : Program Reply ε α) (f : α → Program Reply ε β) :
    eval serve s (p >>= f) =
      match eval serve s p with
      | (.ok a, s') => eval serve s' (f a)
      | (.error e, s') => (.error e, s') := by
  induction p generalizing s with
  | done a => rfl
  | fail e => rfl
  | ask r next ih => exact ih _ _

/-- The store when a program is stopped after at most `n` requests. -/
def evalFor : ℕ → Store → Program Reply ε α → Store
  | 0, s, _ => s
  | n + 1, s, ask r next => evalFor n (serve s r).2 (next (serve s r).1)
  | _ + 1, s, _ => s

/-- A program that is stopped late enough has ended. -/
theorem exists_evalFor_eq (p : Program Reply ε α) (s : Store) :
    ∃ n, ∀ m, n ≤ m → evalFor serve m s p = (eval serve s p).2 := by
  induction p generalizing s with
  | done a => exact ⟨0, fun m _ => by cases m <;> rfl⟩
  | fail e => exact ⟨0, fun m _ => by cases m <;> rfl⟩
  | ask r next ih =>
    obtain ⟨n, hn⟩ := ih (serve s r).1 (serve s r).2
    refine ⟨n + 1, fun m hm => ?_⟩
    obtain ⟨k, rfl⟩ : ∃ k, m = k + 1 := ⟨m - 1, by omega⟩
    exact hn k (by omega)

theorem eval_map (s : Store) (p : Program Reply ε α) (f : α → β) :
    (eval serve s (f <$> p)).1 = (eval serve s p).1.map f := by
  rw [show f <$> p = p >>= fun a => pure (f a) from rfl, eval_bind]
  rcases eval serve s p with ⟨e | a, s'⟩
  · rfl
  · rfl

end Eval

/-! ## The logic of one program -/

section Obeys

variable {View : Type} (look : View → (r : Request) → Reply r → View)

/-- Every request satisfies `P` at the view the program then has, and every end
satisfies `Q`.  A refused request leaves the view as it was. -/
def Obeys (P : View → Request → Prop) (Q : View → Except ε α → Prop) :
    View → Program Reply ε α → Prop
  | v, done a => Q v (.ok a)
  | v, fail e => Q v (.error e)
  | v, ask r next =>
    P v r ∧ (∀ x, Obeys P Q (look v r x) (next (.ok x))) ∧ ∀ e, Obeys P Q v (next (.error e))

variable {look} {P P' : View → Request → Prop} {Q : View → Except ε α → Prop}
  {R : View → Except ε β → Prop} {v : View}

theorem Obeys.pure {a : α} (h : Q v (.ok a)) :
    Obeys look P Q v (Pure.pure a : Program Reply ε α) := h

theorem Obeys.throw {e : ε} (h : Q v (.error e)) :
    Obeys look P Q v (throw e : Program Reply ε α) := h

/-- The rule of sequencing. -/
theorem Obeys.bind {p : Program Reply ε α} {f : α → Program Reply ε β}
    (hp : Obeys look P Q v p) (hok : ∀ w a, Q w (.ok a) → Obeys look P R w (f a))
    (herror : ∀ w e, Q w (.error e) → R w (.error e)) :
    Obeys look P R v (p >>= f) := by
  induction p generalizing v with
  | done a => exact hok v a hp
  | fail e => exact herror v e hp
  | ask r next ih => exact ⟨hp.1, fun x => ih _ (hp.2.1 x), fun e => ih _ (hp.2.2 e)⟩

/-- The rule of a single request followed by `f`. -/
theorem Obeys.call_bind {r : Request} {f : Reply r → Program Reply ε α} (hr : P v r)
    (hok : ∀ x, Obeys look P Q (look v r x) (f x)) (herror : ∀ e, Q v (.error e)) :
    Obeys look P Q v (call r >>= f) :=
  ⟨hr, hok, herror⟩

theorem Obeys.call {r : Request} {Q : View → Except ε (Reply r) → Prop} (hr : P v r)
    (hok : ∀ x, Q (look v r x) (.ok x)) (herror : ∀ e, Q v (.error e)) :
    Obeys look P Q v (call r) :=
  ⟨hr, hok, herror⟩

theorem Obeys.map {p : Program Reply ε α} {f : α → β}
    (hp : Obeys look P (fun w x => R w (x.map f)) v p) : Obeys look P R v (f <$> p) :=
  Obeys.bind hp (fun _ _ h => h) fun _ _ h => h

/-- The rule of conditionals. -/
theorem Obeys.ite {c : Prop} [Decidable c] {p q : Program Reply ε α} (hp : c → Obeys look P Q v p)
    (hq : ¬c → Obeys look P Q v q) : Obeys look P Q v (if c then p else q) := by
  split
  · rename_i hc
    exact hp hc
  · rename_i hc
    exact hq hc

/-- The rule of `try`: the handler runs where the program failed. -/
theorem Obeys.tryCatch {p : Program Reply ε α} {h : ε → Program Reply ε α}
    {Q' : View → Except ε α → Prop} (hp : Obeys look P Q' v p)
    (hok : ∀ w a, Q' w (.ok a) → Q w (.ok a))
    (herror : ∀ w e, Q' w (.error e) → Obeys look P Q w (h e)) :
    Obeys look P Q v (tryCatch p h) := by
  induction p generalizing v with
  | done a => exact hok v a hp
  | fail e => exact herror v e hp
  | ask r next ih => exact ⟨hp.1, fun x => ih _ (hp.2.1 x), fun e => ih _ (hp.2.2 e)⟩

/-- The rule of consequence. -/
theorem Obeys.mono {Q' : View → Except ε α → Prop} {p : Program Reply ε α}
    (hp : Obeys look P Q v p) (hP : ∀ w r, P w r → P' w r) (hQ : ∀ w x, Q w x → Q' w x) :
    Obeys look P' Q' v p := by
  induction p generalizing v with
  | done a => exact hQ v _ hp
  | fail e => exact hQ v _ hp
  | ask r next ih => exact ⟨hP _ _ hp.1, fun x => ih _ (hp.2.1 x), fun e => ih _ (hp.2.2 e)⟩

/-- Two specifications of one program hold together. -/
theorem Obeys.and {Q' : View → Except ε α → Prop} {p : Program Reply ε α}
    (h : Obeys look P Q v p) (h' : Obeys look P' Q' v p) :
    Obeys look (fun w r => P w r ∧ P' w r) (fun w x => Q w x ∧ Q' w x) v p := by
  induction p generalizing v with
  | done a => exact ⟨h, h'⟩
  | fail e => exact ⟨h, h'⟩
  | ask r next ih =>
    exact ⟨⟨h.1, h'.1⟩, fun x => ih _ (h.2.1 x) (h'.2.1 x), fun e => ih _ (h.2.2 e) (h'.2.2 e)⟩

/-- A specification of the requests alone holds whatever the program's view keeps. -/
theorem Obeys.forget {View' : Type} {look' : View' → (r : Request) → Reply r → View'}
    {R : Request → Prop} {p : Program Reply ε α} (hp : Obeys look P Q v p)
    (hP : ∀ w r, P w r → R r) (v' : View') :
    Obeys look' (fun _ r => R r) (fun _ _ => True) v' p := by
  induction p generalizing v v' with
  | done a => exact trivial
  | fail e => exact trivial
  | ask r next ih =>
    exact ⟨hP _ _ hp.1, fun x => ih _ (hp.2.1 x) _, fun e => ih _ (hp.2.2 e) _⟩

end Obeys

/-! ## Programs that a refusal ends -/

/-- A refused request makes the program fail. -/
def Strict : Program Reply ε α → Prop
  | ask _ next => (∀ e, ∃ e', next (.error e) = fail e') ∧ ∀ x, Strict (next (.ok x))
  | _ => True

/-- What is left of such a program after an answer is such a program. -/
theorem Strict.next {r : Request} {next : Except ε (Reply r) → Program Reply ε α}
    (h : (ask r next).Strict) (x : Except ε (Reply r)) : (next x).Strict := by
  cases x with
  | ok a => exact h.2 a
  | error e =>
    obtain ⟨e', he⟩ := h.1 e
    rw [he]
    exact trivial

theorem Strict.call (r : Request) : (call r : Program Reply ε (Reply r)).Strict :=
  ⟨fun e => ⟨e, rfl⟩, fun _ => trivial⟩

theorem Strict.bind {p : Program Reply ε α} {f : α → Program Reply ε β} (hp : p.Strict)
    (hf : ∀ a, (f a).Strict) : (p >>= f).Strict := by
  induction p with
  | done a => exact hf a
  | fail e => exact trivial
  | ask r next ih =>
    refine ⟨fun e => ?_, fun x => ih _ (hp.2 x)⟩
    obtain ⟨e', he⟩ := hp.1 e
    refine ⟨e', ?_⟩
    show (next (.error e)).bind f = fail e'
    rw [he]
    rfl

theorem Strict.map {p : Program Reply ε α} {f : α → β} (hp : p.Strict) : (f <$> p).Strict :=
  hp.bind fun _ => trivial

end Program

/-! ## One entry of a list -/

namespace List

variable {α β : Type} {l : List α} {i : ℕ} {x y : α} {f : α → Option β}

theorem filterMap_set_of_eq (hi : l[i]? = some x) (hf : f y = f x) :
    (l.set i y).filterMap f = l.filterMap f := by
  induction l generalizing i with
  | nil => rfl
  | cons a l ih =>
    cases i with
    | zero =>
      rw [List.getElem?_cons_zero, Option.some.injEq] at hi
      rw [List.set_cons_zero, List.filterMap_cons, List.filterMap_cons, hf, hi]
    | succ i =>
      rw [List.set_cons_succ, List.filterMap_cons, List.filterMap_cons,
        ih (by rwa [List.getElem?_cons_succ] at hi)]

/-- An entry that begins to count adds what it counts for. -/
theorem filterMap_set_perm {b : β} (hi : l[i]? = some x) (hx : f x = none) (hy : f y = some b) :
    ((l.set i y).filterMap f).Perm (b :: l.filterMap f) := by
  induction l generalizing i with
  | nil => cases hi
  | cons a l ih =>
    cases i with
    | zero =>
      rw [List.getElem?_cons_zero, Option.some.injEq] at hi
      rw [List.set_cons_zero, List.filterMap_cons_some hy, List.filterMap_cons_none (hi ▸ hx)]
    | succ i =>
      have hrest := ih (by rwa [List.getElem?_cons_succ] at hi)
      rw [List.set_cons_succ]
      cases ha : f a with
      | none => rwa [List.filterMap_cons_none ha, List.filterMap_cons_none ha]
      | some c =>
        rw [List.filterMap_cons_some ha, List.filterMap_cons_some ha]
        exact (hrest.cons c).trans (.swap b c _)

/-- One changed entry changes the sum by its own term. -/
theorem sum_map_set {g : α → ℕ} (hi : l[i]? = some x) :
    ((l.set i y).map g).sum + g x = (l.map g).sum + g y := by
  induction l generalizing i with
  | nil => cases hi
  | cons a l ih =>
    cases i with
    | zero =>
      rw [List.getElem?_cons_zero, Option.some.injEq] at hi
      rw [List.set_cons_zero, List.map_cons, List.map_cons, List.sum_cons, List.sum_cons, hi]
      omega
    | succ i =>
      rw [List.getElem?_cons_succ] at hi
      rw [List.set_cons_succ, List.map_cons, List.map_cons, List.sum_cons, List.sum_cons]
      have hrest := ih hi
      omega

/-- One changed entry changes the count by itself. -/
theorem countP_set_add (p : α → Bool) (hi : l[i]? = some x) :
    (l.set i y).countP p + (if p x then 1 else 0) = l.countP p + (if p y then 1 else 0) := by
  induction l generalizing i with
  | nil => cases hi
  | cons a l ih =>
    cases i with
    | zero =>
      rw [List.getElem?_cons_zero, Option.some.injEq] at hi
      rw [List.set_cons_zero, List.countP_cons, List.countP_cons, hi]
      omega
    | succ i =>
      rw [List.getElem?_cons_succ] at hi
      rw [List.set_cons_succ, List.countP_cons, List.countP_cons]
      have hrest := ih hi
      omega

/-- One changed entry makes at most one more of them count. -/
theorem countP_set_le (p : α → Bool) (l : List α) (i : ℕ) (y : α) :
    (l.set i y).countP p ≤ l.countP p + (if p y then 1 else 0) := by
  induction l generalizing i with
  | nil => exact Nat.zero_le _
  | cons a l ih =>
    cases i with
    | zero =>
      rw [List.set_cons_zero, List.countP_cons, List.countP_cons]
      omega
    | succ i =>
      rw [List.set_cons_succ, List.countP_cons, List.countP_cons]
      have hrest := ih i
      omega

end List

/-! ## Calls side by side -/

/-- The operations offered over a store.  `serve` answers or refuses a request;
what the environment decides about it comes from a `Choice`. -/
structure Service (Operation Store Choice View : Type) {Request : Type} (Reply : Request → Type)
    (ε α : Type) where
  program : Operation → Program Reply ε α
  serve : Choice → Store → (r : Request) → Except ε (Reply r) × Store
  blank : View
  look : View → (r : Request) → Reply r → View

namespace Service

variable {Operation Store Choice View Request : Type} {Reply : Request → Type} {ε α : Type}

/-- A call under way or ended: its operation, what it has seen and what is left of it. -/
structure Call (Operation View : Type) {Request : Type} (Reply : Request → Type)
    (ε α : Type) where
  op : Operation
  view : View
  rest : Program Reply ε α

/-- The store and every call so far, in the order they started. -/
structure Config (Operation Store View : Type) {Request : Type} (Reply : Request → Type)
    (ε α : Type) where
  store : Store
  calls : List (Call Operation View Reply ε α)

/-- A call starts, or the pending request of the `i`-th call is served. -/
inductive Action (Operation Choice : Type) where
  | start (op : Operation)
  | serve (i : ℕ) (c : Choice)

variable (S : Service Operation Store Choice View Reply ε α)

/-- A call of `op` that has not asked anything yet. -/
def begin (op : Operation) : Call Operation View Reply ε α := ⟨op, S.blank, S.program op⟩

/-- The view after hearing an answer. -/
def hear (v : View) (r : Request) : Except ε (Reply r) → View
  | .ok x => S.look v r x
  | .error _ => v

/-- One step of an interleaving. -/
def step (s : Config Operation Store View Reply ε α) :
    Action Operation Choice → Option (Config Operation Store View Reply ε α)
  | .start op => some { s with calls := s.calls ++ [S.begin op] }
  | .serve i c =>
    match s.calls[i]? with
    | some ⟨op, v, .ask r next⟩ =>
      let answer := S.serve c s.store r
      some ⟨answer.2, s.calls.set i ⟨op, S.hear v r answer.1, next answer.1⟩⟩
    | _ => none

/-- The interleavings that start without calls in a store satisfying `Init`. -/
def system (Init : Store → Prop) :
    TransitionSystem (Config Operation Store View Reply ε α) (Action Operation Choice) where
  init := fun s => Init s.store ∧ s.calls = []
  step := S.step

variable {S}

/-- What a step does: it starts a call, or serves one pending request. -/
theorem step_cases {s s' : Config Operation Store View Reply ε α} {a : Action Operation Choice}
    (h : S.step s a = some s') :
    (∃ op, a = .start op ∧ s' = ⟨s.store, s.calls ++ [S.begin op]⟩) ∨
    ∃ i c op v r next, a = .serve i c ∧ s.calls[i]? = some ⟨op, v, .ask r next⟩ ∧
      s' = ⟨(S.serve c s.store r).2, s.calls.set i
        ⟨op, S.hear v r (S.serve c s.store r).1, next (S.serve c s.store r).1⟩⟩ := by
  cases a with
  | start op =>
    rw [step, Option.some.injEq] at h
    exact Or.inl ⟨op, rfl, h.symm⟩
  | serve i c =>
    simp only [step] at h
    split at h
    · rename_i op v r next hi
      rw [Option.some.injEq] at h
      exact Or.inr ⟨i, c, op, v, r, next, rfl, hi, h.symm⟩
    · cases h

/-- A condition on serving a request, as a condition on the steps of an interleaving. -/
def When (C : Store → Operation → View → Request → Prop)
    (s : Config Operation Store View Reply ε α) : Action Operation Choice → Prop
  | .start _ => True
  | .serve i _ => ∀ op v r next, s.calls[i]? = some ⟨op, v, .ask r next⟩ → C s.store op v r

/-- The same for a condition that is checked. -/
def checked (check : Store → Operation → View → Request → Bool)
    (s : Config Operation Store View Reply ε α) : Action Operation Choice → Bool
  | .start _ => true
  | .serve i _ =>
    match s.calls[i]? with
    | some ⟨op, v, .ask r _⟩ => check s.store op v r
    | _ => true

theorem When.of_checked {C : Store → Operation → View → Request → Prop}
    {check : Store → Operation → View → Request → Bool}
    (hcheck : ∀ st op v r, check st op v r = true → C st op v r)
    {s : Config Operation Store View Reply ε α} {a : Action Operation Choice}
    (h : checked check s a = true) : When C s a := by
  cases a with
  | start op => exact trivial
  | serve i c =>
    intro op v r next hi
    simp only [checked, hi] at h
    exact hcheck _ _ _ _ h

/-! ## Invariants of interleavings -/

/-- Every call obeys the specification of its operation from where it stands. -/
def CallsObey (S : Service Operation Store Choice View Reply ε α)
    (P : Operation → View → Request → Prop) (Q : Operation → View → Except ε α → Prop)
    (s : Config Operation Store View Reply ε α) : Prop :=
  ∀ c ∈ s.calls, c.rest.Obeys S.look (P c.op) (Q c.op) c.view

/-- What holds of each call when it starts, and of what is left of it after each answer, holds
of every call. -/
theorem reachable_calls {Init : Store → Prop}
    {K : Operation → View → Program Reply ε α → Prop}
    (hstart : ∀ op, K op S.blank (S.program op))
    (hnext : ∀ op v r next x, K op v (.ask r next) → K op (S.hear v r x) (next x))
    {C : Config Operation Store View Reply ε α → Action Operation Choice → Prop}
    {s : Config Operation Store View Reply ε α} (hs : (S.system Init).ReachableVia C s) :
    ∀ c ∈ s.calls, K c.op c.view c.rest := by
  apply hs.invariant (I := fun s => ∀ c ∈ s.calls, K c.op c.view c.rest)
  · intro s hinit c hc
    rw [hinit.2] at hc
    exact absurd hc List.not_mem_nil
  · intro s a s' ih _ hstep c hc
    obtain ⟨op, -, rfl⟩ | ⟨i, e, op, v, r, next, -, hi, rfl⟩ := step_cases hstep
    · rcases List.mem_append.1 hc with hc | hc
      · exact ih c hc
      · rw [List.mem_singleton.1 hc]
        exact hstart op
    · rcases List.mem_or_eq_of_mem_set hc with hc | rfl
      · exact ih c hc
      · exact hnext _ _ _ _ _ (ih _ (List.mem_of_getElem? hi))

/-- **Programs keep their specification in every interleaving.** -/
theorem reachable_callsObey {Init : Store → Prop} {P : Operation → View → Request → Prop}
    {Q : Operation → View → Except ε α → Prop}
    (h : ∀ op, (S.program op).Obeys S.look (P op) (Q op) S.blank)
    {C : Config Operation Store View Reply ε α → Action Operation Choice → Prop}
    {s : Config Operation Store View Reply ε α} (hs : (S.system Init).ReachableVia C s) :
    CallsObey S P Q s := by
  apply reachable_calls (K := fun op v p => p.Obeys S.look (P op) (Q op) v) h ?_ hs
  intro op v r next x hask
  cases x with
  | ok x => exact hask.2.1 x
  | error er => exact hask.2.2 er

/-- What the specification says of a pending request. -/
theorem CallsObey.request {P : Operation → View → Request → Prop}
    {Q : Operation → View → Except ε α → Prop} {s : Config Operation Store View Reply ε α}
    (h : CallsObey S P Q s) {i : ℕ} {op : Operation} {v : View} {r : Request}
    {next : Except ε (Reply r) → Program Reply ε α}
    (hi : s.calls[i]? = some ⟨op, v, .ask r next⟩) : P op v r :=
  (h _ (List.mem_of_getElem? hi)).1

/-- What the specification says of a call that has returned. -/
theorem CallsObey.returned {P : Operation → View → Request → Prop}
    {Q : Operation → View → Except ε α → Prop} {s : Config Operation Store View Reply ε α}
    (h : CallsObey S P Q s) {op : Operation} {v : View} {a : α}
    (hc : ⟨op, v, .done a⟩ ∈ s.calls) : Q op v (.ok a) :=
  h _ hc

end Service
