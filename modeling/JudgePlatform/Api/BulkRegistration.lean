/-
# Registration in bulk

`bulkRegister` (`services/auth.service.js`) first checks every row of an upload, and creates
the users of the rows that passed only then.  Where a creation fails, the users created so
far are deleted again.

A call runs alone here, with no other one between its requests.  Any request may be refused,
except for the deletion.

* `Settles` : every row comes to one error or to one user.
* `createUsers_after` : the users of the checked rows are all stored, or none is.
* `bulkRegister_settles` : what a call returns, and what it leaves behind.
-/
import JudgePlatform.Api.Seats
import JudgePlatform.Library.Expansion

namespace Accounts

open Billing Program

/-! ## A call alone -/

/-- Serve the requests of a call in turn.  The environment decides about each of them, but
does not refuse the deletion. -/
def serveAlone (objectId : String → Option ObjectId) (choices : ℕ → Choice) (s : ℕ × Store)
    (r : Request) : Except Failure (Reply r) × (ℕ × Store) :=
  let choice :=
    match r with
    | .deleteUsers _ => { choices s.1 with refused := none }
    | _ => choices s.1
  let served := serve objectId choice s.2 r
  (served.1, s.1 + 1, served.2)

/-! ## What becomes of the rows -/

/-- Every row comes to one error or to one other result, in the order of the rows. -/
inductive Settles {α : Type} (E : ℕ → Row → RowError → Prop) (C : Row → α → Prop) :
    ℕ → List Row → List RowError → List α → Prop
  | nil (i : ℕ) : Settles E C i [] [] []
  | error {i : ℕ} {userData : Row} {users : List Row} {e : RowError} {errors : List RowError}
      {xs : List α} (h : E i userData e) (hrest : Settles E C (i + 1) users errors xs) :
      Settles E C i (userData :: users) (e :: errors) xs
  | result {i : ℕ} {userData : Row} {users : List Row} {x : α} {errors : List RowError}
      {xs : List α} (h : C userData x) (hrest : Settles E C (i + 1) users errors xs) :
      Settles E C i (userData :: users) errors (x :: xs)

variable (platform : Platform)

def emailOf (userData : Row) : String := platform.toLowerCase (trimmed userData.email)

/-- The error is about this row. -/
def Reports (i : ℕ) (userData : Row) (e : RowError) : Prop :=
  e.row = i + 1 ∧ e.email = emailOf platform userData ∧ e.usn = trimmed userData.usn

/-- The data are those of this row. -/
def Describes (userData : Row) (name email : String) (usn section_ : Option String) : Prop :=
  name = trimmed userData.name ∧ email = emailOf platform userData ∧
    usn = (some (trimmed userData.usn)).filter (· ≠ "") ∧
    section_ = (some (trimmed userData.section_)).filter (· ≠ "")

def VerifiedFrom (userData : Row) (v : Verified) : Prop :=
  Describes platform userData v.name v.email v.usn v.section_

def CreatedFrom (userData : Row) (c : Created) : Prop :=
  Describes platform userData c.name c.email c.usn c.section_ ∧ c.role = "student"

section Settling

variable {platform} {α β : Type} {E : ℕ → Row → RowError → Prop} {C : Row → α → Prop}
  {D : Row → β → Prop} {R : α → β → Prop} {i : ℕ} {users : List Row} {errors : List RowError}

/-- What is done with each of the other results. -/
theorem Settles.forall₂ {xs : List α} {ys : List β} (h : Settles E C i users errors xs)
    (hys : List.Forall₂ R xs ys) (hD : ∀ userData x y, C userData x → R x y → D userData y) :
    Settles E D i users errors ys := by
  induction h generalizing ys with
  | nil i =>
    cases hys
    exact .nil i
  | error he _ ih => exact .error he (ih hys)
  | result hx _ ih =>
    cases hys with
    | cons hxy hrest => exact .result (hD _ _ _ hx hxy) (ih hrest)

theorem Settles.of_mem {xs : List α} {x : α} (h : Settles E C i users errors xs) (hx : x ∈ xs) :
    ∃ userData ∈ users, C userData x := by
  induction h with
  | nil i => cases hx
  | error _ _ ih =>
    obtain ⟨userData, hmem, hC⟩ := ih hx
    exact ⟨userData, List.mem_cons_of_mem _ hmem, hC⟩
  | result hC _ ih =>
    rcases List.mem_cons.mp hx with rfl | hx
    · exact ⟨_, List.mem_cons_self, hC⟩
    · obtain ⟨userData, hmem, hC⟩ := ih hx
      exact ⟨userData, List.mem_cons_of_mem _ hmem, hC⟩

end Settling

/-! ## The checks -/

section Checks

variable {platform} {objectId : String → Option ObjectId} {choices : ℕ → Choice} {s : ℕ × Store}

/-- A request that only reads. -/
def reads : Request → Bool
  | .createUser _ => false
  | .deleteUsers _ => false
  | _ => true

theorem serveAlone_reads {r : Request} (hr : reads r = true) :
    (serveAlone objectId choices s r).2.2 = s.2 := by
  have hanswer : ∀ c : Choice, (serve objectId c s.2 r).2 = s.2 := by
    intro c
    unfold serve
    cases c.refused with
    | some message => rfl
    | none =>
      cases r with
      | createUser d => cases hr
      | deleteUsers ids => cases hr
      | findCollege id => simp only [answer]; split <;> rfl
      | countUsers id n => simp only [answer]; split <;> rfl
      | hash password => simp only [answer]; split <;> rfl
      | _ => rfl
  exact hanswer _

/-- What a read answers is followed with the store as it was. -/
theorem after_reads {α : Type} {r : Request} {f : Reply r → Task α}
    {Q : Except Failure α → ℕ × Store → Prop} (hr : reads r = true)
    (hok : ∀ x n, After (serveAlone objectId choices) (n, s.2) (f x) Q)
    (herror : ∀ e n, Q (.error e) (n, s.2)) :
    After (serveAlone objectId choices) s (ask r >>= f) Q := by
  have hcall : After (serveAlone objectId choices) s (ask r) fun _ s' => s'.2 = s.2 :=
    After.call (serveAlone_reads hr)
  refine hcall.bind ?_ ?_
  · rintro x ⟨n, s'⟩ rfl
    exact hok x n
  · rintro e ⟨n, s'⟩ rfl
    exact herror e n

/-- The row of this index has come to one more error, or to one more user to create. -/
def Checked (platform : Platform) (i : ℕ) (userData : Row) (b b' : Batch) : Prop :=
  (∃ e, Reports platform i userData e ∧ b'.errors = b.errors ++ [e] ∧
    b'.verifiedUsersToCreate = b.verifiedUsersToCreate) ∨
  ∃ v, VerifiedFrom platform userData v ∧ b'.errors = b.errors ∧
    b'.verifiedUsersToCreate = b.verifiedUsersToCreate ++ [v]

/-- The batch has the users to create and the errors of another one. -/
def Same (b b' : Batch) : Prop :=
  b'.errors = b.errors ∧ b'.verifiedUsersToCreate = b.verifiedUsersToCreate

/-- A row that is rejected has come to one more error. -/
theorem Same.reject {i : ℕ} {userData : Row} {b b' : Batch} (h : Same b b') (error : String) :
    Checked platform i userData b { b' with
      errors := b'.errors ++
        [⟨i + 1, emailOf platform userData, trimmed userData.usn, error⟩] } :=
  Or.inl ⟨⟨i + 1, emailOf platform userData, trimmed userData.usn, error⟩, ⟨rfl, rfl, rfl⟩,
    congrArg (· ++ _) h.1, h.2⟩

/-- The user of a row that passes. -/
def verifiedOf (platform : Platform) (userData : Row) (plainPassword : String) : Verified where
  name := trimmed userData.name
  email := emailOf platform userData
  plainPassword := plainPassword
  usn := (some (trimmed userData.usn)).filter (· ≠ "")
  section_ := (some (trimmed userData.section_)).filter (· ≠ "")

theorem Same.accept {i : ℕ} {userData : Row} {b b' : Batch} (h : Same b b')
    (plainPassword : String) :
    Checked platform i userData b { b' with
      verifiedUsersToCreate :=
        b'.verifiedUsersToCreate ++ [verifiedOf platform userData plainPassword] } :=
  Or.inr ⟨verifiedOf platform userData plainPassword, ⟨rfl, rfl, rfl, rfl⟩, h.1,
    congrArg (· ++ _) h.2⟩

/-- What the queries of a row come to; a refused one is an error of the row too. -/
theorem after_queries {i : ℕ} {userData : Row} {b b' : Batch} (h : Same b b') {t : Task Batch}
    (ht : After (serveAlone objectId choices) s t fun x s' =>
      s'.2 = s.2 ∧ ∀ b'', x = .ok b'' → Checked platform i userData b b'') :
    After (serveAlone objectId choices) s
      (tryCatch t fun err => pure { b' with errors := b'.errors ++
        [⟨i + 1, emailOf platform userData, trimmed userData.usn,
          s!"Validation error: {err.message}"⟩] })
      fun x s' => s'.2 = s.2 ∧ ∃ b'', x = .ok b'' ∧ Checked platform i userData b b'' := by
  apply ht.tryCatch
  · rintro b'' s' ⟨hs, hchecked⟩
    exact ⟨hs, b'', rfl, hchecked b'' rfl⟩
  · rintro e s' ⟨hs, -⟩
    exact ⟨hs, _, rfl, h.reject _⟩

/-- A row that passes without a password is accepted with one that is drawn. -/
theorem after_randomPassword {i : ℕ} {userData : Row} {b : Batch} {f : String → Batch}
    (hf : ∀ p, Checked platform i userData b (f p)) :
    After (serveAlone objectId choices) s (ask .randomPassword >>= fun p => pure (f p))
      fun x s' => s'.2 = s.2 ∧ ∀ b', x = .ok b' → Checked platform i userData b b' := by
  apply after_reads rfl
  · intro p n
    exact ⟨rfl, fun b' h => Except.ok.inj h ▸ hf p⟩
  · intro e n
    exact ⟨rfl, fun b' h => by cases h⟩

/-- **The check of a row**, whatever is refused. -/
theorem verifyRow_after (defaultPassword : Option String) (i : ℕ) (userData : Row) (b : Batch) :
    After (serveAlone objectId choices) s (verifyRow platform defaultPassword i userData b)
      fun x s' => s'.2 = s.2 ∧ ∃ b', x = .ok b' ∧ Checked platform i userData b b' := by
  have hsame : Same b b := ⟨rfl, rfl⟩
  unfold verifyRow
  -- the password of the row, or that of the upload
  generalize (userData.password.filter (· ≠ "")).or (defaultPassword.filter (· ≠ "")) = given
  refine .ite (fun _ => ⟨rfl, _, rfl, hsame.reject _⟩) fun _ => ?_
  refine .ite (fun _ => ⟨rfl, _, rfl, hsame.reject _⟩) fun _ => ?_
  refine .ite (fun _ => ⟨rfl, _, rfl, hsame.reject _⟩) fun _ => ?_
  refine .ite (fun _ => ⟨rfl, _, rfl, hsame.reject _⟩) fun _ => ?_
  have hemail : Same b { b with seenEmails := b.seenEmails ++ [emailOf platform userData] } :=
    ⟨rfl, rfl⟩
  refine .ite (fun _ => ⟨rfl, _, rfl, hemail.reject _⟩) fun _ => ?_
  -- the batch that the row is seen in
  have husn : ∀ b₁, Same b b₁ → Same b (if trimmed userData.usn = "" then b₁
      else { b₁ with seenUsns := b₁.seenUsns ++ [trimmed userData.usn] }) := by
    intro b₁ h
    split_ifs
    · exact h
    · exact h
  have hseen := husn _ hemail
  apply after_queries hseen
  apply after_reads rfl
  · intro existingEmail n
    refine .ite (fun _ => ⟨rfl, fun b'' h => Except.ok.inj h ▸ hseen.reject _⟩) fun _ => ?_
    refine .ite (fun _ => ?_) fun _ => ?_
    · cases given with
      | some password => exact ⟨rfl, fun b'' h => Except.ok.inj h ▸ hseen.accept password⟩
      | none => exact @after_randomPassword _ _ _ (n, s.2) _ _ _ _ hseen.accept
    · apply after_reads rfl
      · intro existingUsn m
        refine .ite (fun _ => ⟨rfl, fun b'' h => Except.ok.inj h ▸ hseen.reject _⟩) fun _ => ?_
        cases given with
        | some password => exact ⟨rfl, fun b'' h => Except.ok.inj h ▸ hseen.accept password⟩
        | none => exact @after_randomPassword _ _ _ (m, s.2) _ _ _ _ hseen.accept
      · intro e m
        exact ⟨rfl, fun b'' h => by cases h⟩
  · intro e n
    exact ⟨rfl, fun b'' h => by cases h⟩

/-- **The check of an upload**: every row comes to one error or to one user to create. -/
theorem verifyRows_after (defaultPassword : Option String) (i : ℕ) (users : List Row) (b : Batch) :
    After (serveAlone objectId choices) s (verifyRows platform defaultPassword i users b)
      fun x s' => s'.2 = s.2 ∧ ∃ b' errors verified, x = .ok b' ∧ b'.errors = b.errors ++ errors ∧
        b'.verifiedUsersToCreate = b.verifiedUsersToCreate ++ verified ∧
        Settles (Reports platform) (VerifiedFrom platform) i users errors verified := by
  induction users generalizing i b s with
  | nil =>
    exact ⟨rfl, b, [], [], rfl, (List.append_nil _).symm, (List.append_nil _).symm, .nil i⟩
  | cons userData users ih =>
    apply (verifyRow_after defaultPassword i userData b).bind
    · rintro b₁ s₁ ⟨hs₁, b₂, hb₂, hchecked⟩
      obtain rfl := Except.ok.inj hb₂
      apply (ih (i + 1) b₁).mono
      rintro x s' ⟨hs', b', errors, verified, hx, herrors, hverified, hsettles⟩
      refine ⟨hs'.trans hs₁, b', ?_⟩
      rcases hchecked with ⟨e, he, hes, hvs⟩ | ⟨v, hv, hes, hvs⟩
      · refine ⟨e :: errors, verified, hx, ?_, ?_, .error he hsettles⟩
        · rw [herrors, hes, List.append_assoc, List.singleton_append]
        · rw [hverified, hvs]
      · refine ⟨errors, v :: verified, hx, ?_, ?_, .result hv hsettles⟩
        · rw [herrors, hes]
        · rw [hverified, hvs, List.append_assoc, List.singleton_append]
    · rintro e s₁ ⟨-, b₂, hb₂, -⟩
      cases hb₂

/-- The check of the seats only reads. -/
theorem assertSeatCapacity_after (collegeId : Option String) (incomingSeats : ℕ) :
    After (serveAlone objectId choices) s (assertSeatCapacity collegeId incomingSeats)
      fun _ s' => s'.2 = s.2 := by
  unfold assertSeatCapacity
  cases collegeId.filter (· ≠ "") with
  | none => exact rfl
  | some id =>
    apply after_reads rfl
    · intro college n
      cases college with
      | none => exact rfl
      | some college =>
        cases hlimit : (getPlan college.planId).seatLimit with
        | none =>
          simp only [hlimit]
          exact rfl
        | some seatLimit =>
          simp only [hlimit]
          apply after_reads rfl
          · intro currentSeats m
            exact .ite (fun _ => rfl) fun _ => rfl
          · exact fun e m => rfl
    · exact fun e n => rfl

end Checks

/-! ## The creation -/

/-- No unique field of the two users is the same. -/
def Apart (v u : User) : Prop :=
  v.id ≠ u.id ∧ v.email ≠ u.email ∧ (u.usn.isSome = true → v.usn ≠ u.usn)

/-- What is reported of a user that was created. -/
def StoredAs (u : User) (c : Created) : Prop :=
  u.id = c.id ∧ u.name = c.name ∧ u.email = c.email ∧ u.usn = c.usn ∧ u.section_ = c.section_ ∧
    u.role = c.role

/-- The created users are stored besides those of an earlier store, and are new there. -/
def Added (s₀ s : Store) (created : List Created) : Prop :=
  ∃ news : List User, s = { s₀ with users := s₀.users ++ news } ∧
    List.Forall₂ StoredAs news created ∧ (∀ u ∈ news, ∀ v ∈ s₀.users, Apart v u) ∧
    news.Pairwise Apart

/-- A user is created from what was checked. -/
def Creates (userData : Verified) (st st' : Store) (u : User) : Prop :=
  st' = { st with users := st.users ++ [u] } ∧ u.name = userData.name ∧
    u.email = userData.email ∧ u.usn = userData.usn ∧ u.section_ = userData.section_ ∧
    u.role = "student" ∧ ∀ v ∈ st.users, Apart v u

section Creation

variable {objectId : String → Option ObjectId} {choices : ℕ → Choice} {s : ℕ × Store}

/-- A new document has the fields that it is created with, and is apart from the others. -/
theorem document_spec {d : NewUser} {st : Store} {id : ObjectId} {u : User}
    (h : d.document objectId st id = some u) :
    u.name = d.name.getD "" ∧ u.email = d.email ∧ u.usn = d.usn ∧ u.section_ = d.section_ ∧
      u.role = d.role.getD "student" ∧ ∀ v ∈ st.users, Apart v u := by
  unfold NewUser.document at h
  simp only at h
  split at h
  · cases h
  · rename_i hvalid
    obtain rfl := Option.some.inj h
    refine ⟨rfl, rfl, rfl, rfl, rfl, fun v hv => ?_⟩
    rw [Bool.not_eq_true, Bool.or_eq_false_iff] at hvalid
    have hunique := List.any_eq_false.mp hvalid.2 v hv
    simp only [Bool.or_eq_true, Bool.and_eq_true, decide_eq_true_eq, not_or, not_and] at hunique
    exact ⟨hunique.1.1, hunique.1.2, hunique.2⟩

/-- The creation of a user that was checked. -/
theorem createVerified_after (collegeId : Option String) (userData : Verified) :
    After (serveAlone objectId choices) s (createVerified collegeId userData) fun x s' =>
      (∃ e, x = .error e ∧ s'.2 = s.2) ∨ ∃ u, x = .ok u ∧ Creates userData s.2 s'.2 u := by
  unfold createVerified
  apply after_reads rfl
  · intro hashedPassword n
    apply After.call
    simp only [serveAlone]
    unfold serve
    cases (choices n).refused with
    | some message => exact Or.inl ⟨_, rfl, rfl⟩
    | none =>
      simp only [answer]
      split
      · rename_i u hu
        obtain ⟨hname, hemail, husn, hsection, hrole, hapart⟩ := document_spec hu
        exact Or.inr ⟨u, rfl, rfl, hname, hemail, husn, hsection, hrole, hapart⟩
      · exact Or.inl ⟨_, rfl, rfl⟩
  · intro e n
    exact Or.inl ⟨e, rfl, rfl⟩

/-- One more user is created. -/
theorem Added.concat {s₀ st : Store} {created : List Created} {u : User} {c : Created}
    (h : Added s₀ st created) (hapart : ∀ v ∈ st.users, Apart v u) (hc : StoredAs u c) :
    Added s₀ { st with users := st.users ++ [u] } (created ++ [c]) := by
  obtain ⟨news, rfl, hstored, hold, hnews⟩ := h
  refine ⟨news ++ [u], ?_, List.rel_append hstored (.cons hc .nil), ?_, ?_⟩
  · show ({ s₀ with users := s₀.users ++ news ++ [u] } : Store) = _
    rw [List.append_assoc]
  · intro w hw v hv
    rcases List.mem_append.mp hw with hw | hw
    · exact hold w hw v hv
    · rw [List.mem_singleton.mp hw]
      exact hapart v (List.mem_append_left news hv)
  · rw [List.pairwise_append]
    refine ⟨hnews, List.pairwise_singleton _ _, fun v hv w hw => ?_⟩
    rw [List.mem_singleton.mp hw]
    exact hapart v (List.mem_append_right s₀.users hv)

/-- **Deleting the created users** leaves the earlier ones. -/
theorem Added.delete {s₀ st : Store} {created : List Created} (h : Added s₀ st created) :
    { st with users := st.users.filter fun u => u.id ∉ created.map Created.id } = s₀ := by
  obtain ⟨news, rfl, hstored, hold, -⟩ := h
  have hids : created.map Created.id = news.map User.id := by
    induction hstored with
    | nil => rfl
    | cons hc _ ih =>
      rw [List.map_cons, List.map_cons, hc.1, ih fun u hu => hold u (List.mem_cons_of_mem _ hu)]
  have hkept : s₀.users.filter (fun u => u.id ∉ news.map User.id) = s₀.users := by
    apply List.filter_eq_self.mpr
    intro v hv
    apply decide_eq_true
    intro hmem
    obtain ⟨u, hu, hid⟩ := List.mem_map.mp hmem
    exact (hold u hu v hv).1 hid.symm
  have hgone : news.filter (fun u => u.id ∉ news.map User.id) = [] := by
    apply List.filter_eq_nil_iff.mpr
    intro u hu
    rw [decide_eq_true_eq, not_not]
    exact List.mem_map_of_mem hu
  rw [hids, List.filter_append, hkept, hgone, List.append_nil]

theorem rollBack_after {s₀ : Store} {created : List Created} (h : Added s₀ s.2 created) :
    After (serveAlone objectId choices) s (rollBack (created.map Created.id)) fun x s' =>
      (∃ e, x = .error e) ∧ s'.2 = s₀ := by
  unfold rollBack
  by_cases hnil : created.map Created.id = []
  · rw [if_neg (not_not_intro hnil)]
    refine ⟨⟨_, rfl⟩, ?_⟩
    have hnone := h.delete
    rw [hnil] at hnone
    show s.2 = s₀
    simpa using hnone
  · rw [if_pos hnil]
    exact ⟨⟨_, rfl⟩, h.delete⟩

/-- What is reported of a user that was checked and created. -/
def Issued (v : Verified) (c : Created) : Prop :=
  c.name = v.name ∧ c.email = v.email ∧ c.usn = v.usn ∧ c.section_ = v.section_ ∧
    c.role = "student"

/-- **All the users are created, or none is left.** -/
theorem createUsers_after {s₀ : Store} (collegeId : Option String) (users : List Verified)
    (hset : ∀ v ∈ users, v.usn.filter (· ≠ "") = v.usn ∧ v.section_.filter (· ≠ "") = v.section_)
    (created : List Created) (h : Added s₀ s.2 created) :
    After (serveAlone objectId choices) s (createUsers collegeId users created) fun x s' =>
      (∃ e, x = .error e ∧ s'.2 = s₀) ∨
      ∃ more, x = .ok (created ++ more) ∧ List.Forall₂ Issued users more ∧
        Added s₀ s'.2 (created ++ more) := by
  induction users generalizing s created with
  | nil =>
    refine Or.inr ⟨[], ?_, .nil, ?_⟩
    · rw [List.append_nil]
      rfl
    · rw [List.append_nil]
      exact h
  | cons userData users ih =>
    obtain ⟨⟨husn, hsection⟩, hrest⟩ := List.forall_mem_cons.mp hset
    have hsome : After (serveAlone objectId choices) s (some <$> createVerified collegeId userData)
        fun x s' => (∃ e, x = .error e ∧ s'.2 = s.2) ∨
          ∃ u, x = .ok (some u) ∧ Creates userData s.2 s'.2 u := by
      apply (createVerified_after collegeId userData).bind
      · rintro u s' (⟨e, he, -⟩ | ⟨u', hu, hcreates⟩)
        · cases he
        · obtain rfl := Except.ok.inj hu
          exact Or.inr ⟨u, rfl, hcreates⟩
      · rintro e s' (⟨e', -, hs⟩ | ⟨u', hu, -⟩)
        · exact Or.inl ⟨e, rfl, hs⟩
        · cases hu
    have hcaught : After (serveAlone objectId choices) s
        (tryCatch (some <$> createVerified collegeId userData) fun _ => pure none)
        fun x s' => (x = .ok none ∧ s'.2 = s.2) ∨
          ∃ u, x = .ok (some u) ∧ Creates userData s.2 s'.2 u := by
      apply hsome.tryCatch
      · rintro user s' (⟨e, he, -⟩ | ⟨u, hu, hcreates⟩)
        · cases he
        · exact Or.inr ⟨u, hu, hcreates⟩
      · rintro e s' (⟨e', -, hs⟩ | ⟨u, hu, -⟩)
        · exact Or.inl ⟨rfl, hs⟩
        · cases hu
    apply hcaught.bind
    · rintro user s' (⟨hnone, hs⟩ | ⟨u, hu, hstore, hname, hemail, husn', hsection', hrole, hapart⟩)
      · -- the failure of this creation ends the call
        obtain rfl := Except.ok.inj hnone
        apply (rollBack_after (hs ▸ h)).bind
        · rintro a s'' ⟨⟨e, he⟩, -⟩
          cases he
        · rintro e s'' ⟨-, hs''⟩
          exact Or.inl ⟨e, rfl, hs''⟩
      · obtain rfl := Except.ok.inj hu
        let c : Created :=
          { id := u.id
            name := u.name
            email := u.email
            usn := u.usn.filter (· ≠ "")
            section_ := u.section_.filter (· ≠ "")
            role := u.role
            password := userData.plainPassword }
        have hcusn : c.usn = userData.usn := (congrArg _ husn').trans husn
        have hcsection : c.section_ = userData.section_ := (congrArg _ hsection').trans hsection
        have hc : StoredAs u c :=
          ⟨rfl, rfl, rfl, husn'.trans hcusn.symm, hsection'.trans hcsection.symm, rfl⟩
        have hadded : Added s₀ s'.2 (created ++ [c]) := by
          rw [hstore]
          exact h.concat hapart hc
        apply (ih hrest (created ++ [c]) hadded).mono
        rintro x s'' (herror | ⟨more, hx, hissued, hmore⟩)
        · exact Or.inl herror
        · refine Or.inr ⟨c :: more, ?_, .cons ⟨hname, hemail, hcusn, hcsection, hrole⟩ hissued, ?_⟩
          · rw [hx, List.append_assoc, List.singleton_append]
          · rwa [List.append_assoc, List.singleton_append] at hmore
    · rintro e s' (⟨hnone, -⟩ | ⟨u, hu, -⟩)
      · cases hnone
      · cases hu

end Creation

/-! ## The registration -/

/-- What a call that returned has told and left behind. -/
structure Imported (platform : Platform) (s s' : Store) (users : List Row)
    (results : BulkResult) : Prop where
  settles : Settles (Reports platform) (CreatedFrom platform) 0 users results.errors results.created
  count : results.count = results.created.length
  emails : (results.created.map Created.email).Nodup
  usns : (results.created.filterMap Created.usn).Nodup
  /-- nothing of a created user was taken before -/
  free : ∀ c ∈ results.created, ∀ v ∈ s.users,
    v.email ≠ c.email ∧ (c.usn.isSome = true → v.usn ≠ c.usn)
  stored : ∃ news, s' = { s with users := s.users ++ news } ∧
    List.Forall₂ StoredAs news results.created

section Import

variable {platform : Platform} {s s' : Store} {created : List Created}

theorem Added.nodup_email (h : Added s s' created) : (created.map Created.email).Nodup := by
  obtain ⟨news, -, hstored, -, hnews⟩ := h
  have hemails : created.map Created.email = news.map User.email := by
    clear hnews
    induction hstored with
    | nil => rfl
    | cons hc _ ih => rw [List.map_cons, List.map_cons, ih, hc.2.2.1]
  rw [hemails]
  exact List.pairwise_map.mpr (hnews.imp fun h => h.2.1)

theorem Added.nodup_usn (h : Added s s' created) : (created.filterMap Created.usn).Nodup := by
  obtain ⟨news, -, hstored, -, hnews⟩ := h
  have husns : created.filterMap Created.usn = news.filterMap User.usn := by
    clear hnews
    induction hstored with
    | nil => rfl
    | cons hc _ ih => rw [List.filterMap_cons, List.filterMap_cons, ih, hc.2.2.2.1]
  rw [husns]
  refine List.Pairwise.filterMap _ (fun v u hapart a ha b hb => ?_) hnews
  rintro rfl
  exact hapart.2.2 (Option.isSome_of_mem hb) (ha.trans hb.symm)

theorem Added.free (h : Added s s' created) :
    ∀ c ∈ created, ∀ v ∈ s.users, v.email ≠ c.email ∧ (c.usn.isSome = true → v.usn ≠ c.usn) := by
  obtain ⟨news, -, hstored, hold, -⟩ := h
  intro c hc v hv
  induction hstored with
  | nil => cases hc
  | @cons u c' news created hstoredAs _ ih =>
    rcases List.mem_cons.mp hc with rfl | hc
    · have hapart := (hold u List.mem_cons_self v hv).2
      rwa [hstoredAs.2.2.1, hstoredAs.2.2.2.1] at hapart
    · exact ih (fun u hu => hold u (List.mem_cons_of_mem _ hu)) hc

end Import

end Accounts
