/-
# The service account

Requests of the exam service carry a shared secret instead of a token, and act as one account.
Each process of the API looks the account up, or creates it, when the first request needs it,
and keeps the promise of its identifier for the requests that follow; the promise is dropped
when the lookup fails.

* `verifyArventiq` : a request is turned away, or waits for the promise of its process, which
  `getOrCreateServiceUserId` makes where there is none.
* `settle` : a request of a lookup to the database is answered, refused, or carried out with the
  answer lost.
* `one_service_account` : however the processes run, there is one account, all requests that are
  let in act as it, and each process has one lookup under way at most.
-/
import JudgePlatform.Api.RoleConfinement

namespace ServiceAccount

open Accounts (ObjectId User NewUser Failure Platform)
open Sessions (Store Choice Request Reply SERVICE_ACCOUNT_EMAIL getServiceUserId)

/-! ## The secret -/

/-- `crypto.timingSafeEqual` of the bytes, where both are given and equally long. -/
def safeCompare (a b : Option String) : Bool :=
  match a, b with
  | some a, some b =>
    if a.length = 0 || b.length = 0 then false
    else if a.toUTF8.size ≠ b.toUTF8.size then false
    else a.toUTF8 = b.toUTF8
  | _, _ => false

theorem safeCompare_eq {a b : Option String} (h : safeCompare a b = true) : a = b ∧ b.isSome := by
  cases a with
  | none => cases h
  | some a =>
    cases b with
    | none => cases h
    | some b =>
      simp only [safeCompare] at h
      split at h
      · cases h
      · split at h
        · cases h
        · exact ⟨congrArg some (String.toByteArray_inj.mp (of_decide_eq_true h)), rfl⟩

/-- The token of an `authorization` header. -/
def bearer (authHeader : Option String) : Option String :=
  let cs := (authHeader.getD "").toList
  if "Bearer ".toList.isPrefixOf cs then some (Accounts.trim (String.ofList (cs.drop 7))) else none

/-! ## Processes -/

/-- A run of the function behind `serviceUserIdPromise`, and the promise of its result. -/
structure Lookup where
  process : ℕ
  rest : Sessions.Task ObjectId

inductive Stage where
  /-- awaits the promise of a lookup -/
  | waiting (lookup : ℕ)
  | admitted (user : ObjectId)
  | failed (e : Failure)
  | unauthorized

structure Incoming where
  process : ℕ
  authHeader : Option String
  stage : Stage

/-- The database, the memos of the processes, and the lookups and the requests so far. -/
structure State where
  store : Store
  serviceUserIdPromise : ℕ → Option ℕ
  lookups : List Lookup
  requests : List Incoming

inductive Action where
  | arrive (process : ℕ) (authHeader : Option String)
  | settle (lookup : ℕ) (c : Choice) (answerLost : Bool)
  | resume (request : ℕ)
  /-- the other operations on the database -/
  | other (store : Store)

/-- The memo of a process, or the promise of a new lookup. -/
def getOrCreateServiceUserId (s : State) (process : ℕ) : ℕ × State :=
  match s.serviceUserIdPromise process with
  | some lookup => (lookup, s)
  | none =>
    (s.lookups.length, { s with
      serviceUserIdPromise := Function.update s.serviceUserIdPromise process s.lookups.length
      lookups := s.lookups ++ [⟨process, getServiceUserId⟩] })

variable (platform : Platform) (secret : Option String)

def verifyArventiq (s : State) (process : ℕ) (authHeader : Option String) : State :=
  if safeCompare (bearer authHeader) secret then
    let awaited := getOrCreateServiceUserId s process
    { awaited.2 with
      requests := s.requests ++ [⟨process, authHeader, .waiting awaited.1⟩] }
  else { s with requests := s.requests ++ [⟨process, authHeader, .unauthorized⟩] }

/-- What a lookup hears. -/
def hears {r : Request} (answerLost : Bool) (x : Except Failure (Reply r)) :
    Except Failure (Reply r) :=
  if answerLost then .error (.thrown "connection closed") else x

/-- Whether a promise is rejected. -/
def failed : Sessions.Task ObjectId → Bool
  | .fail _ => true
  | _ => false

/-- The request that a lookup waits for is served; where the lookup fails, its promise is
dropped. -/
def settle (s : State) (i : ℕ) (c : Choice) (answerLost : Bool) : Option State :=
  match s.lookups[i]? with
  | some ⟨process, .ask r next⟩ =>
    let answered := Sessions.serve platform c s.store r
    let rest := next (hears answerLost answered.1)
    some { s with
      store := answered.2
      serviceUserIdPromise :=
        if failed rest then Function.update s.serviceUserIdPromise process none
        else s.serviceUserIdPromise
      lookups := s.lookups.set i ⟨process, rest⟩ }
  | _ => none

/-- A request goes on with the settled promise that it awaits. -/
def resume (s : State) (i : ℕ) : Option State :=
  match s.requests[i]? with
  | some ⟨process, authHeader, .waiting lookup⟩ =>
    match s.lookups[lookup]?.map Lookup.rest with
    | some (.done user) =>
      some { s with requests := s.requests.set i ⟨process, authHeader, .admitted user⟩ }
    | some (.fail e) =>
      some { s with requests := s.requests.set i ⟨process, authHeader, .failed e⟩ }
    | _ => none
  | _ => none

def step (s : State) : Action → Option State
  | .arrive process authHeader => some (verifyArventiq secret s process authHeader)
  | .settle i c answerLost => settle platform s i c answerLost
  | .resume i => resume s i
  | .other store => some { s with store }

/-- The accounts under the address of the service. -/
def accounts (st : Store) : List User :=
  st.base.users.filter fun u => u.email = SERVICE_ACCOUNT_EMAIL

/-- The processes start over a database whose index on addresses is unique. -/
def system : TransitionSystem State Action where
  init := fun s => (accounts s.store).length ≤ 1 ∧ s.serviceUserIdPromise = (fun _ => none) ∧
    s.lookups = [] ∧ s.requests = []
  step := step platform secret

/-- The other operations keep off the address of the service. -/
def KeepsOff (s : State) : Action → Prop
  | .other store => (accounts store).map User.id = (accounts s.store).map User.id
  | _ => True

/-! ## What a lookup does -/

/-- The account that a lookup has found or made. -/
def look (v : Option User) : (r : Request) → Reply r → Option User
  | .base (.findEmail _), (u : Option User) => u
  | .base (.createUser _), (u : User) => some u
  | _, _ => v

/-- A lookup asks for the account of the service only. -/
def Looks : Request → Prop
  | .base (.findEmail email) => email = SERVICE_ACCOUNT_EMAIL
  | .base (.createUser d) => d.email = SERVICE_ACCOUNT_EMAIL
  | .base .randomPassword => True
  | .base (.hash _) => True
  | _ => False

/-- A lookup returns the identifier of that account. -/
def Finds (v : Option User) (x : Except Failure ObjectId) : Prop :=
  ∀ id, x = .ok id → ∃ u, v = some u ∧ u.id = id

theorem getServiceUserId_looks : getServiceUserId.Obeys look (fun _ => Looks) Finds none := by
  have hfails : ∀ v e, Finds v (.error e) := fun v e id h => by cases h
  refine Program.Obeys.call_bind rfl (fun (existing : Option User) => ?_) (hfails _)
  cases existing with
  | some existing =>
    intro id h
    exact ⟨existing, rfl, Except.ok.inj h⟩
  | none =>
    refine Program.Obeys.call_bind trivial (fun _ => ?_) (hfails _)
    refine Program.Obeys.call_bind trivial (fun _ => ?_) (hfails _)
    refine Program.Obeys.call_bind rfl (fun created => ?_) (hfails _)
    intro id h
    exact ⟨created, rfl, Except.ok.inj h⟩

/-- There is an account of the service with this identifier. -/
def Holds (st : Store) (id : ObjectId) : Prop := ∃ u ∈ accounts st, u.id = id

/-- What is left of a lookup, and an account that it has found is there. -/
def Working (st : Store) (rest : Sessions.Task ObjectId) : Prop :=
  ∃ v, rest.Obeys look (fun _ => Looks) Finds v ∧ ∀ u, v = some u → Holds st u.id

section Serving

variable {platform : Platform} {c : Choice} {st st' : Store} {r : Request} {v : Option User}
  {id : ObjectId}

/-- An account is new under its address. -/
theorem document_fresh {d : NewUser} {base : Accounts.Store} {u : User}
    (h : d.document platform.objectId base id = some u) : ∀ w ∈ base.users, w.email ≠ d.email := by
  unfold NewUser.document at h
  simp only at h
  split at h
  · cases h
  · rename_i hvalid
    intro w hw hemail
    apply hvalid
    rw [Bool.or_eq_true, List.any_eq_true]
    refine .inr ⟨w, hw, ?_⟩
    simp [hemail]

/-- The account that a lookup creates is the only one of the service. -/
theorem accounts_createUser {d : NewUser} {u : User} (hemail : d.email = SERVICE_ACCOUNT_EMAIL)
    (h : d.document platform.objectId st.base id = some u) :
    accounts st = [] ∧
      accounts { st with base := { st.base with users := st.base.users ++ [u] } } = [u] := by
  have hnone : accounts st = [] := by
    refine List.filter_eq_nil_iff.mpr fun w hw => ?_
    rw [decide_eq_true_eq, ← hemail]
    exact document_fresh h w hw
  refine ⟨hnone, ?_⟩
  have hu : u.email = SERVICE_ACCOUNT_EMAIL := (Sessions.document_fields h).2.1.trans hemail
  show (st.base.users ++ [u]).filter _ = [u]
  rw [List.filter_append, show st.base.users.filter _ = [] from hnone,
    List.filter_singleton, decide_eq_true hu]
  rfl

/-- What a request of a lookup does: it leaves the accounts of the service, or creates the first;
and the account that its answer names is there. -/
theorem serve_looks (hr : Looks r) :
    (accounts (Sessions.serve platform c st r).2 = accounts st ∨
      accounts st = [] ∧ (accounts (Sessions.serve platform c st r).2).length = 1) ∧
    ∀ x u, (Sessions.serve platform c st r).1 = .ok x → look v r x = some u →
      v = some u ∨ u ∈ accounts (Sessions.serve platform c st r).2 := by
  unfold Sessions.serve
  cases hrefused : c.refused with
  | some message => exact ⟨.inl rfl, fun x u h => by cases h⟩
  | none =>
    cases r with
    | base r =>
      simp only [Sessions.answer, Accounts.serve, hrefused]
      cases r with
      | findEmail email =>
        refine ⟨.inl rfl, fun x u h hlook => .inr ?_⟩
        cases h
        have hfind : st.base.users.find? (fun u => u.email = email) = some u := hlook
        have hemail : u.email = email := by simpa using List.find?_some hfind
        exact List.mem_filter.mpr ⟨List.mem_of_find?_eq_some hfind,
          decide_eq_true (hemail.trans hr)⟩
      | randomPassword => exact ⟨.inl rfl, fun x u _ hlook => .inl hlook⟩
      | hash password =>
        simp only [Accounts.answer]
        split <;> exact ⟨.inl rfl, fun x u _ hlook => .inl hlook⟩
      | createUser d =>
        simp only [Accounts.answer]
        split
        · rename_i u hu
          obtain ⟨hnone, hone⟩ := accounts_createUser hr hu
          refine ⟨.inr ⟨hnone, ?_⟩, fun x w h hlook => .inr ?_⟩
          · show (accounts { st with base := { st.base with users := _ } }).length = 1
            rw [hone]
            rfl
          · cases h
            cases hlook
            show u ∈ accounts { st with base := { st.base with users := _ } }
            rw [hone]
            exact List.mem_singleton_self u
        · exact ⟨.inl rfl, fun x u h => by cases h⟩
      | _ => exact hr.elim
    | _ => exact hr.elim

end Serving

/-! ## The invariant -/

structure Inv (secret : Option String) (s : State) : Prop where
  single : (accounts s.store).length ≤ 1
  working : ∀ l ∈ s.lookups, Working s.store l.rest
  /-- a memo is the promise of its process, and is not rejected -/
  memo : ∀ q i, s.serviceUserIdPromise q = some i →
    ∃ l, s.lookups[i]? = some l ∧ l.process = q ∧ failed l.rest = false
  /-- a lookup under way is the memo of its process -/
  pending : ∀ i l, s.lookups[i]? = some l → l.rest.pending.isSome →
    s.serviceUserIdPromise l.process = some i
  authorized : ∀ r ∈ s.requests, r.stage ≠ .unauthorized →
    safeCompare (bearer r.authHeader) secret = true
  admitted : ∀ r ∈ s.requests, ∀ user, r.stage = .admitted user → Holds s.store user

section Steps

variable {platform : Platform} {secret : Option String} {s s' : State}

/-- What is known of an account stays known while its identifier is there. -/
theorem Working.mono {st st' : Store} {rest : Sessions.Task ObjectId} (h : Working st rest)
    (hkeep : ∀ id, Holds st id → Holds st' id) : Working st' rest := by
  obtain ⟨v, hobeys, hv⟩ := h
  exact ⟨v, hobeys, fun u hu => hkeep _ (hv u hu)⟩

theorem Inv.init (h : (system platform secret).init s) : Inv secret s := by
  obtain ⟨hsingle, hmemo, hlookups, hrequests⟩ := h
  refine ⟨hsingle, fun l hl => ?_, fun q i hi => ?_, fun i l hl => ?_, fun r hr => ?_, fun r hr => ?_⟩
  · rw [hlookups] at hl
    exact absurd hl List.not_mem_nil
  · rw [hmemo] at hi
    cases hi
  · rw [hlookups] at hl
    cases hl
  · rw [hrequests] at hr
    exact absurd hr List.not_mem_nil
  · rw [hrequests] at hr
    exact absurd hr List.not_mem_nil

/-- A process has a memo, or makes a new lookup its memo. -/
theorem getOrCreate_cases (s : State) (process : ℕ) :
    (getOrCreateServiceUserId s process).2 = s ∨
    s.serviceUserIdPromise process = none ∧ (getOrCreateServiceUserId s process).2 = { s with
      serviceUserIdPromise := Function.update s.serviceUserIdPromise process s.lookups.length
      lookups := s.lookups ++ [⟨process, getServiceUserId⟩] } := by
  unfold getOrCreateServiceUserId
  cases hmemo : s.serviceUserIdPromise process with
  | some i => exact .inl rfl
  | none => exact .inr ⟨rfl, rfl⟩

theorem store_getOrCreate (s : State) (process : ℕ) :
    (getOrCreateServiceUserId s process).2.store = s.store := by
  rcases getOrCreate_cases s process with h | ⟨-, h⟩ <;> rw [h]

theorem Inv.getOrCreate (h : Inv secret s) (process : ℕ) :
    Inv secret (getOrCreateServiceUserId s process).2 := by
  rcases getOrCreate_cases s process with hsame | ⟨hmemo, hnew⟩
  · rw [hsame]
    exact h
  · rw [hnew]
    refine ⟨h.single, fun l hl => ?_, fun q i hi => ?_, fun i l hl hpending => ?_, h.authorized,
      h.admitted⟩
    · rcases List.mem_append.mp hl with hl | hl
      · exact h.working l hl
      · rw [List.mem_singleton.mp hl]
        exact ⟨none, getServiceUserId_looks, fun u hu => by cases hu⟩
    · simp only at hi
      by_cases hq : q = process
      · rw [hq, Function.update_self, Option.some.injEq] at hi
        rw [← hi]
        exact ⟨_, List.getElem?_concat_length, hq.symm, rfl⟩
      · rw [Function.update_of_ne hq] at hi
        obtain ⟨l, hl, hprocess⟩ := h.memo q i hi
        exact ⟨l, (List.getElem?_append_left (List.getElem?_eq_some_iff.mp hl).1).trans hl, hprocess⟩
    · simp only at hl ⊢
      rcases Nat.lt_or_ge i s.lookups.length with hi | hi
      · rw [List.getElem?_append_left hi] at hl
        have hprocess := h.pending i l hl hpending
        have hne : l.process ≠ process := by
          intro heq
          rw [heq, hmemo] at hprocess
          cases hprocess
        rw [Function.update_of_ne hne]
        exact hprocess
      · rw [List.getElem?_append_right hi] at hl
        have hzero : i - s.lookups.length = 0 := by
          by_contra hne
          rw [List.getElem?_singleton, if_neg hne] at hl
          cases hl
        rw [hzero] at hl
        cases hl
        rw [Function.update_self]
        congr 1
        omega

theorem Inv.arrive (h : Inv secret s) (process : ℕ) (authHeader : Option String) :
    Inv secret (verifyArventiq secret s process authHeader) := by
  unfold verifyArventiq
  split
  · rename_i hsecret
    have h' := h.getOrCreate process
    refine ⟨h'.single, h'.working, h'.memo, h'.pending, fun r hr hstage => ?_,
      fun r hr user hstage => ?_⟩
    · rcases List.mem_append.mp hr with hr | hr
      · exact h.authorized r hr hstage
      · rw [List.mem_singleton.mp hr]
        exact hsecret
    · rcases List.mem_append.mp hr with hr | hr
      · show Holds (getOrCreateServiceUserId s process).2.store user
        rw [store_getOrCreate]
        exact h.admitted r hr user hstage
      · rw [List.mem_singleton.mp hr] at hstage
        cases hstage
  · refine ⟨h.single, h.working, h.memo, h.pending, fun r hr hstage => ?_,
      fun r hr user hstage => ?_⟩
    · rcases List.mem_append.mp hr with hr | hr
      · exact h.authorized r hr hstage
      · rw [List.mem_singleton.mp hr] at hstage
        exact absurd rfl hstage
    · rcases List.mem_append.mp hr with hr | hr
      · exact h.admitted r hr user hstage
      · rw [List.mem_singleton.mp hr] at hstage
        cases hstage

/-- What a settled request makes of the database and of its lookup. -/
theorem Working.settle {st : Store} {r : Request}
    {next : Except Failure (Reply r) → Sessions.Task ObjectId} (h : Working st (.ask r next))
    (hsingle : (accounts st).length ≤ 1) (c : Choice) (answerLost : Bool) :
    (accounts (Sessions.serve platform c st r).2).length ≤ 1 ∧
    (∀ id, Holds st id → Holds (Sessions.serve platform c st r).2 id) ∧
    Working (Sessions.serve platform c st r).2
      (next (hears answerLost (Sessions.serve platform c st r).1)) := by
  obtain ⟨v, ⟨hr, hok, herror⟩, hv⟩ := h
  obtain ⟨haccounts, hanswer⟩ := @serve_looks platform c st r v hr
  have hkeep : ∀ id, Holds st id → Holds (Sessions.serve platform c st r).2 id := by
    rintro id ⟨u, hu, hid⟩
    rcases haccounts with hsame | ⟨hnone, -⟩
    · rw [← hsame] at hu
      exact ⟨u, hu, hid⟩
    · rw [hnone] at hu
      exact absurd hu List.not_mem_nil
  refine ⟨?_, hkeep, ?_⟩
  · rcases haccounts with hsame | ⟨-, hone⟩
    · rw [hsame]
      exact hsingle
    · exact hone.le
  · cases hx : hears answerLost (Sessions.serve platform c st r).1 with
    | error e => exact ⟨v, herror e, fun u hu => hkeep _ (hv u hu)⟩
    | ok x =>
      have hanswered : (Sessions.serve platform c st r).1 = .ok x := by
        unfold hears at hx
        split at hx
        · cases hx
        · exact hx
      refine ⟨look v r x, hok x, fun u hu => ?_⟩
      rcases hanswer x u hanswered hu with hold | hnew
      · exact hkeep _ (hv u hold)
      · exact ⟨u, hnew, rfl⟩

/-- What `settle` does. -/
theorem settle_cases {i : ℕ} {c : Choice} {answerLost : Bool}
    (h : settle platform s i c answerLost = some s') :
    ∃ process r next, s.lookups[i]? = some ⟨process, .ask r next⟩ ∧ s' = { s with
      store := (Sessions.serve platform c s.store r).2
      serviceUserIdPromise :=
        if failed (next (hears answerLost (Sessions.serve platform c s.store r).1)) then
          Function.update s.serviceUserIdPromise process none
        else s.serviceUserIdPromise
      lookups := s.lookups.set i
        ⟨process, next (hears answerLost (Sessions.serve platform c s.store r).1)⟩ } := by
  unfold settle at h
  split at h
  · rename_i process r next hi
    exact ⟨process, r, next, hi, (Option.some.inj h).symm⟩
  · cases h

theorem Inv.settle (h : Inv secret s) {i : ℕ} {c : Choice} {answerLost : Bool}
    (hstep : settle platform s i c answerLost = some s') : Inv secret s' := by
  obtain ⟨process, r, next, hi, rfl⟩ := settle_cases hstep
  obtain ⟨hlt, -⟩ := List.getElem?_eq_some_iff.mp hi
  obtain ⟨hsingle, hkeep, hworking⟩ :=
    (h.working _ (List.mem_of_getElem? hi)).settle h.single c answerLost
  have hmemo : s.serviceUserIdPromise process = some i := h.pending i _ hi rfl
  generalize hrest : next (hears answerLost (Sessions.serve platform c s.store r).1) = rest
    at hworking ⊢
  refine ⟨hsingle, fun l hl => ?_, fun q j hj => ?_, fun j l hl hpending => ?_, h.authorized,
    fun r hr user hstage => hkeep _ (h.admitted r hr user hstage)⟩
  · rcases List.mem_or_eq_of_mem_set hl with hl | rfl
    · exact (h.working l hl).mono hkeep
    · exact hworking
  · -- a memo that is left is of another lookup, or of this one while it has not failed
    have hold : s.serviceUserIdPromise q = some j ∧ (j = i → failed rest = false) := by
      by_cases hfailed : failed rest = true
      · simp only [hfailed, if_true] at hj
        by_cases hq : q = process
        · rw [hq, Function.update_self] at hj
          cases hj
        · rw [Function.update_of_ne hq] at hj
          refine ⟨hj, fun heq => ?_⟩
          obtain ⟨l, hl, hprocess, -⟩ := h.memo q j hj
          rw [heq, hi] at hl
          cases hl
          exact absurd hprocess.symm hq
      · rw [Bool.not_eq_true] at hfailed
        simp only [hfailed, Bool.false_eq_true, if_false] at hj
        exact ⟨hj, fun _ => hfailed⟩
    obtain ⟨l, hl, hprocess, hl'⟩ := h.memo q j hold.1
    by_cases hji : j = i
    · rw [hji, hi] at hl
      cases hl
      have hset : (s.lookups.set i ⟨process, rest⟩)[j]? = some ⟨process, rest⟩ := by
        rw [hji]
        exact List.getElem?_set_self hlt
      exact ⟨_, hset, hprocess, hold.2 hji⟩
    · exact ⟨l, (List.getElem?_set_ne (Ne.symm hji)).trans hl, hprocess, hl'⟩
  · by_cases hji : j = i
    · rw [hji, List.getElem?_set_self hlt] at hl
      cases hl
      have hfailed : failed rest = false := by
        cases hr : rest with
        | ask r next => rfl
        | done a => rfl
        | fail e =>
          rw [hr] at hpending
          cases hpending
      simp only [hfailed, Bool.false_eq_true, if_false, hji]
      exact hmemo
    · rw [List.getElem?_set_ne (Ne.symm hji)] at hl
      have hj := h.pending j l hl hpending
      have hne : l.process ≠ process := by
        intro heq
        rw [heq, hmemo] at hj
        exact hji (Option.some.inj hj).symm
      simp only
      split
      · rw [Function.update_of_ne hne]
        exact hj
      · exact hj

theorem Inv.resume (h : Inv secret s) {i : ℕ} (hstep : resume s i = some s') : Inv secret s' := by
  unfold ServiceAccount.resume at hstep
  split at hstep
  · rename_i process authHeader lookup hi
    have hmem := List.mem_of_getElem? hi
    have hauthorized := h.authorized _ hmem (by intro h; cases h)
    split at hstep
    · rename_i user hdone
      rw [← Option.some.inj hstep]
      obtain ⟨l, hl, hrest⟩ := Option.map_eq_some_iff.mp hdone
      obtain ⟨v, hobeys, hv⟩ := h.working l (List.mem_of_getElem? hl)
      rw [hrest] at hobeys
      obtain ⟨u, hu, hid⟩ := hobeys user rfl
      refine ⟨h.single, h.working, h.memo, h.pending, fun r hr hstage => ?_,
        fun r hr user' hstage => ?_⟩
      · rcases List.mem_or_eq_of_mem_set hr with hr | rfl
        · exact h.authorized r hr hstage
        · exact hauthorized
      · rcases List.mem_or_eq_of_mem_set hr with hr | rfl
        · exact h.admitted r hr user' hstage
        · cases hstage
          rw [← hid]
          exact hv u hu
    · rw [← Option.some.inj hstep]
      refine ⟨h.single, h.working, h.memo, h.pending, fun r hr hstage => ?_,
        fun r hr user' hstage => ?_⟩
      · rcases List.mem_or_eq_of_mem_set hr with hr | rfl
        · exact h.authorized r hr hstage
        · exact hauthorized
      · rcases List.mem_or_eq_of_mem_set hr with hr | rfl
        · exact h.admitted r hr user' hstage
        · cases hstage
    · cases hstep
  · cases hstep

theorem Inv.other (h : Inv secret s) {store : Store}
    (hkeep : (accounts store).map User.id = (accounts s.store).map User.id) :
    Inv secret { s with store } := by
  have hholds : ∀ id, Holds s.store id → Holds store id := by
    rintro id ⟨u, hu, hid⟩
    have hmem : id ∈ (accounts store).map User.id := by
      rw [hkeep, ← hid]
      exact List.mem_map_of_mem hu
    obtain ⟨w, hw, hid'⟩ := List.mem_map.mp hmem
    exact ⟨w, hw, hid'⟩
  refine ⟨?_, fun l hl => (h.working l hl).mono hholds, h.memo, h.pending, h.authorized,
    fun r hr user hstage => hholds _ (h.admitted r hr user hstage)⟩
  have hlength := congrArg List.length hkeep
  rw [List.length_map, List.length_map] at hlength
  show (accounts store).length ≤ 1
  rw [hlength]
  exact h.single

theorem Inv.step (h : Inv secret s) {a : Action} (ha : KeepsOff s a)
    (hstep : step platform secret s a = some s') : Inv secret s' := by
  cases a with
  | arrive process authHeader =>
    rw [← Option.some.inj hstep]
    exact h.arrive process authHeader
  | settle i c answerLost => exact h.settle hstep
  | resume i => exact h.resume hstep
  | other store =>
    rw [← Option.some.inj hstep]
    exact h.other ha


/-- **One service account**: while the other operations keep off its address, in every
interleaving of any number of processes there is one account of the service at most; every
request that was let in carried the secret and acts as that account; and each process has at most
one lookup under way and never keeps the promise of one that failed. -/
theorem one_service_account
    (hs : (system platform secret).ReachableVia KeepsOff s) :
    (accounts s.store).length ≤ 1 ∧
    (∀ r ∈ s.requests, ∀ user, r.stage = .admitted user →
      (bearer r.authHeader = secret ∧ secret.isSome) ∧ ∃ u ∈ accounts s.store, u.id = user) ∧
    (∀ (i j : ℕ) (l l' : Lookup), s.lookups[i]? = some l → s.lookups[j]? = some l' → l.process = l'.process →
      l.rest.pending.isSome → l'.rest.pending.isSome → i = j) ∧
    ∀ (q i : ℕ) (l : Lookup), s.serviceUserIdPromise q = some i → s.lookups[i]? = some l →
      failed l.rest = false := by
  have hinv : Inv secret s := hs.invariant (fun _ => Inv.init) fun _ _ _ hI => hI.step
  refine ⟨hinv.single, fun r hr user hstage => ⟨safeCompare_eq (hinv.authorized r hr ?_),
    hinv.admitted r hr user hstage⟩, fun i j l l' hi hj hprocess hl hl' => ?_,
    fun q i l hq hl => ?_⟩
  · rw [hstage]
    intro h
    cases h
  · have hmemo := hinv.pending i l hi hl
    rw [hprocess, hinv.pending j l' hj hl'] at hmemo
    exact (Option.some.inj hmemo).symm
  · obtain ⟨l', hl', -, hfailed⟩ := hinv.memo q i hq
    rw [hl] at hl'
    cases hl'
    exact hfailed


end Steps

/-! ### Two processes -/

def Stage.user : Stage → Option ObjectId
  | .admitted user => some user
  | _ => none

def empty : State := ⟨⟨⟨[], []⟩, [], []⟩, fun _ => none, [], []⟩

/-- Two processes look for the account at once and both find none; the second to create it fails,
and finds it at the next request. -/
def race : List Action :=
  let found : Choice := { text := "text" }
  [.arrive 0 (some "Bearer secret"), .arrive 1 (some "Bearer secret"), .settle 0 found false,
    .settle 1 found false, .settle 0 found false, .settle 1 found false, .settle 0 found false,
    .settle 1 found false, .settle 0 { newId := "a" } false, .settle 1 { newId := "b" } false,
    .resume 0, .resume 1, .arrive 1 (some "Bearer secret"), .settle 2 found false, .resume 2]

/-- A check that only the service's own steps pass. -/
def isOwn (_ : State) : Action → Bool
  | .other _ => false
  | _ => true

theorem keepsOff_of_isOwn (s : State) (a : Action) (h : isOwn s a = true) : KeepsOff s a := by
  cases a with
  | other store => cases h
  | _ => exact trivial

theorem one_service_account_race : ∃ s : State,
    s.requests.map (fun r => r.stage.user) = [some "a", none, some "a"] ∧
    (accounts s.store).length ≤ 1 := by
  let T := system Accounts.plainPlatform (some "secret")
  have heval : (T.runWhen isOwn empty race).map (fun s => s.requests.map fun r => r.stage.user) =
      some [some "a", none, some "a"] := by decide +kernel
  obtain ⟨s, hrun, husers⟩ := Option.map_eq_some_iff.mp heval
  have hinit : T.ReachableVia KeepsOff empty := .init ⟨Nat.zero_le 1, rfl, rfl, rfl⟩
  exact ⟨s, husers, (one_service_account
    (hinit.trans (TransitionSystem.runVia_of_runWhen keepsOff_of_isOwn hrun))).1⟩

end ServiceAccount
