/-
# No way up

The role and the college of an account are set when it is created and signed into its
tokens.  A sign-up is open to everyone and makes an admin; registering staff needs the token
of a superadmin.

* `Confined` : the accounts that come about without a superadmin.
* `accounts_serve`, `signed_serve`, `college_serve` : what a request may do to accounts, tokens
  and colleges.
* `roles_confined` : while no superadmin acts, no interleaving makes a superadmin or a member of
  the faculty, or an admin of a college that was there before.
-/
import JudgePlatform.Api.Sessions
import JudgePlatform.Library.Knowledge

namespace Sessions

open Accounts (ObjectId User NewUser Failure Platform PublicUser Registration Row trim)

/-- The claims of accounts that need no superadmin: those of the start, of students, of the service
account, and of the admin of a college that was not there at the start. -/
inductive Confined (st₀ : Store) (cl : Claims) : Prop
  | initial (u : User) (hu : u ∈ st₀.base.users) (hcl : claimsOf u = cl)
  | student (hrole : cl.role = "student")
  | service (hrole : cl.role = "admin") (hemail : cl.email = SERVICE_ACCOUNT_EMAIL)
      (hcollege : cl.collegeId = none)
  | founder (id : ObjectId) (hrole : cl.role = "admin") (hcollege : cl.collegeId = some id)
      (hnew : st₀.base.college id = none)

/-- The operations of everybody but the superadmins of the start: they present no token of a
superadmin, and nobody logs in as one. -/
structure Operation.Ordinary (platform : Platform) (st₀ : Store) (op : Operation) : Prop where
  token : ∀ token cl, op.token = some token → (token, cl) ∈ st₀.signed → cl.role ≠ "superadmin"
  email : ∀ email, op.email = some email → ∀ u ∈ st₀.base.users, u.role = "superadmin" →
    u.email ≠ platform.toLowerCase email

/-- The accounts that a call may create. -/
inductive Entitled (v : Seen) (d : NewUser) : Prop
  | student (hrole : d.role = some "student")
  | service (hrole : d.role = some "admin") (hemail : d.email = SERVICE_ACCOUNT_EMAIL)
      (hcollege : d.collegeId = none)
  | founder (id : ObjectId) (hmade : v.college = some id) (hrole : d.role = some "admin")
      (hcollege : d.collegeId = (some (trim id)).filter (· ≠ ""))
  | superadmin (cl : Claims) (hcaller : v.caller = some cl) (hrole : cl.role = "superadmin")

/-- A call verifies its own token, deletes its own college, and signs a token for the account that
it made or that logs in. -/
def Asks (platform : Platform) (op : Operation) (v : Seen) : Request → Prop
  | .base (.createUser d) => Entitled v d
  | .base (.sign u) => u ∈ v.made ∨ ∃ email, op.email = some email ∧
      (platform.toLowerCase email, u) ∈ v.found
  | .verify token => op.token = some token
  | .deleteCollege id => v.college = some id
  | .importDatabase => ∃ cl, v.caller = some cl ∧ cl.role = "superadmin"
  | _ => True

/-! ## What calls ask -/

/-- Whatever a program returns is fine. -/
abbrev Any {α : Type} (_ : List User) (_ : Except Failure α) : Prop := True

def lookMade (made : List User) : (r : Accounts.Request) → Accounts.Reply r → List User
  | .createUser _, (u : User) => made ++ [u]
  | _, _ => made

/-- Accounts of one role and college, and tokens for them. -/
def Enlists (role college : Option String) (made : List User) : Accounts.Request → Prop
  | .createUser d => d.role = role ∧ d.collegeId = college
  | .sign u => u ∈ made
  | _ => True

section Programs

variable {platform : Platform} {role k : Option String} {made : List User}
  {op : Operation} {v : Seen}

theorem assertSeatCapacity_enlists (collegeId : Option String) (n : ℕ) :
    (Accounts.assertSeatCapacity collegeId n).Obeys lookMade (Enlists role k) Any made := by
  unfold Accounts.assertSeatCapacity
  cases collegeId.filter (· ≠ "") with
  | none => exact trivial
  | some id =>
    refine Program.Obeys.call_bind trivial (fun x => ?_) fun _ => trivial
    cases x with
    | none => exact trivial
    | some college =>
      cases hlimit : (Billing.getPlan college.planId).seatLimit with
      | none =>
        simp only [hlimit]
        exact trivial
      | some seatLimit =>
        simp only [hlimit]
        exact Program.Obeys.call_bind trivial
          (fun _ => .ite (fun _ => trivial) fun _ => trivial) fun _ => trivial

theorem register_enlists (x : Registration) :
    (Accounts.register platform x).Obeys lookMade
      (Enlists x.role ((x.collegeId.map trim).filter (· ≠ ""))) Any made := by
  unfold Accounts.register
  refine .ite (fun _ => trivial) fun _ => ?_
  have hcreate : ∀ (emailLower : String) (usn : Option String) (made : List User),
      (do
        Accounts.assertSeatCapacity ((x.collegeId.map trim).filter (· ≠ "")) 1
        let hashed : String ← Accounts.ask (.hash x.password)
        let user : User ← Accounts.ask (.createUser {
          name := x.name
          email := emailLower
          password := hashed
          role := x.role
          usn
          section_ := (x.section_.filter (· ≠ "")).map trim
          collegeId := (x.collegeId.map trim).filter (· ≠ "") })
        let token : String ← Accounts.ask (.sign user)
        return (token, Accounts.toPublicUser user)).Obeys lookMade
          (Enlists x.role ((x.collegeId.map trim).filter (· ≠ ""))) Any made := by
    intro emailLower usn made
    refine Program.Obeys.bind (assertSeatCapacity_enlists _ 1) (fun w _ _ => ?_) fun _ _ _ => trivial
    refine Program.Obeys.call_bind trivial (fun _ => ?_) fun _ => trivial
    refine Program.Obeys.call_bind ⟨rfl, rfl⟩ (fun user => ?_) fun _ => trivial
    exact Program.Obeys.call_bind (List.mem_append_right _ (List.mem_singleton_self user))
      (fun _ => trivial) fun _ => trivial
  cases x.email with
  | none => exact trivial
  | some email =>
    refine Program.Obeys.call_bind trivial (fun existing => ?_) fun _ => trivial
    refine .ite (fun _ => trivial) fun _ => ?_
    cases (x.usn.filter (· ≠ "")).map trim with
    | none => exact hcreate _ _ _
    | some usn =>
      refine Program.Obeys.call_bind trivial (fun existingUsn => ?_) fun _ => trivial
      exact .ite (fun _ => trivial) fun _ => hcreate _ _ _

theorem verifyRow_enlists (defaultPassword : Option String) (i : ℕ) (userData : Row)
    (b : Accounts.Batch) :
    (Accounts.verifyRow platform defaultPassword i userData b).Obeys lookMade (Enlists role k)
      Any made := by
  unfold Accounts.verifyRow
  refine .ite (fun _ => trivial) fun _ => .ite (fun _ => trivial) fun _ =>
    .ite (fun _ => trivial) fun _ => .ite (fun _ => trivial) fun _ =>
    .ite (fun _ => trivial) fun _ => ?_
  have htry : ∀ (t : Accounts.Task Accounts.Batch) (h : Failure → Accounts.Batch),
      t.Obeys lookMade (Enlists role k) Any made →
      (tryCatch t fun e => pure (h e)).Obeys lookMade (Enlists role k) Any made :=
    fun t h ht => ht.tryCatch (fun _ _ _ => trivial) fun _ _ _ => trivial
  refine htry _ _ (Program.Obeys.call_bind trivial (fun existingEmail => ?_) fun _ => trivial)
  refine .ite (fun _ => trivial) fun _ => .ite (fun _ => ?_) fun _ => ?_
  · refine Program.Obeys.bind (Q := Any) trivial (fun _ existingUsn _ => ?_) fun _ _ _ => trivial
    refine .ite (fun _ => trivial) fun _ => ?_
    cases (userData.password.filter (· ≠ "")).or (defaultPassword.filter (· ≠ "")) with
    | some password => exact trivial
    | none => exact Program.Obeys.call_bind trivial (fun _ => trivial) fun _ => trivial
  · refine Program.Obeys.call_bind trivial (fun existingUsn => ?_) fun _ => trivial
    refine .ite (fun _ => trivial) fun _ => ?_
    cases (userData.password.filter (· ≠ "")).or (defaultPassword.filter (· ≠ "")) with
    | some password => exact trivial
    | none => exact Program.Obeys.call_bind trivial (fun _ => trivial) fun _ => trivial

theorem verifyRows_enlists (defaultPassword : Option String) (i : ℕ) (rows : List Row)
    (b : Accounts.Batch) :
    (Accounts.verifyRows platform defaultPassword i rows b).Obeys lookMade (Enlists role k)
      Any made := by
  induction rows generalizing i b made with
  | nil => exact trivial
  | cons userData rows ih =>
    exact Program.Obeys.bind (verifyRow_enlists defaultPassword i userData b)
      (fun _ _ _ => ih _ _) fun _ _ _ => trivial

theorem rollBack_enlists (createdIds : List ObjectId) :
    (Accounts.rollBack createdIds).Obeys lookMade (Enlists role k) Any made := by
  unfold Accounts.rollBack
  by_cases hnil : createdIds = []
  · rw [if_neg (not_not_intro hnil)]
    exact trivial
  · rw [if_pos hnil]
    exact Program.Obeys.call_bind trivial (fun _ => trivial) fun _ => trivial

theorem createUsers_enlists (collegeId : Option String) (verified : List Accounts.Verified)
    (created : List Accounts.Created) :
    (Accounts.createUsers collegeId verified created).Obeys lookMade
      (Enlists (some "student") (collegeId.filter (· ≠ ""))) Any made := by
  induction verified generalizing created made with
  | nil => exact trivial
  | cons userData verified ih =>
    have hcreate : (Accounts.createVerified collegeId userData).Obeys lookMade
        (Enlists (some "student") (collegeId.filter (· ≠ ""))) Any made :=
      Program.Obeys.call_bind trivial (fun _ => Program.Obeys.call ⟨rfl, rfl⟩
        (fun _ => trivial) fun _ => trivial) fun _ => trivial
    have htry : (tryCatch (some <$> Accounts.createVerified collegeId userData)
        fun _ => pure none).Obeys lookMade
          (Enlists (some "student") (collegeId.filter (· ≠ ""))) Any made :=
      (Program.Obeys.map (R := Any) hcreate).tryCatch (fun _ _ _ => trivial) fun _ _ _ => trivial
    refine Program.Obeys.bind htry (fun w user _ => ?_) fun _ _ _ => trivial
    cases user with
    | none => exact Program.Obeys.bind (rollBack_enlists _) (fun _ _ _ => trivial) fun _ _ _ => trivial
    | some user => exact ih _

theorem bulkRegister_enlists (rows : List Row) (defaultPassword collegeId : Option String) :
    (Accounts.bulkRegister platform rows defaultPassword collegeId).Obeys lookMade
      (Enlists (some "student") (collegeId.filter (· ≠ ""))) Any made := by
  unfold Accounts.bulkRegister
  refine Program.Obeys.bind (verifyRows_enlists defaultPassword 0 rows {}) (fun w b _ => ?_)
    fun _ _ _ => trivial
  have hcreate : ∀ w, (do
      let created ← Accounts.createUsers collegeId b.verifiedUsersToCreate []
      return (⟨created, b.errors, created.length⟩ : Accounts.BulkResult)).Obeys lookMade
        (Enlists (some "student") (collegeId.filter (· ≠ ""))) Any w :=
    fun w => Program.Obeys.bind (createUsers_enlists _ _ _) (fun _ _ _ => trivial)
      fun _ _ _ => trivial
  refine .ite (fun _ => ?_) fun _ => hcreate w
  exact Program.Obeys.bind (assertSeatCapacity_enlists _ _) (fun _ _ _ => hcreate _)
    fun _ _ _ => trivial

/-- Programs of the accounts ask for what they may, where their accounts are permitted. -/
theorem expand_asks {α : Type} {t : Accounts.Task α}
    (h : t.Obeys lookMade (Enlists role k) Any v.made)
    (hentitled : ∀ w d, w.caller = v.caller → w.college = v.college → d.role = role →
      d.collegeId = k → Entitled w d) :
    (t.expand fun r => ask (.base r)).Obeys look (Asks platform op)
      (fun w _ => w.caller = v.caller ∧ w.college = v.college) v := by
  have hexpand : (t.expand fun r => ask (.base r)).Obeys look (Asks platform op)
      (fun w x => ∃ made, (w.made = made ∧ w.caller = v.caller ∧ w.college = v.college) ∧
        Any made x) v := by
    refine Program.Obeys.expand h (fun made w r hw hr => ?_) ⟨rfl, rfl, rfl⟩
    obtain ⟨rfl, hcaller, hcollege⟩ := hw
    refine Program.Obeys.call ?_ (fun x => ?_) fun _ => ⟨rfl, hcaller, hcollege⟩
    · cases r with
      | createUser d => exact hentitled w d hcaller hcollege hr.1 hr.2
      | sign u => exact .inl hr
      | _ => exact trivial
    · show (lookBase w r x).made = lookMade w.made r x ∧ (lookBase w r x).caller = v.caller ∧
        (lookBase w r x).college = v.college
      cases r with
      | findEmail email => cases x <;> exact ⟨rfl, hcaller, hcollege⟩
      | _ => exact ⟨rfl, hcaller, hcollege⟩
  refine hexpand.mono (fun _ _ hr => hr) fun w x hx => ?_
  obtain ⟨made, ⟨-, hcaller, hcollege⟩, -⟩ := hx
  exact ⟨hcaller, hcollege⟩

end Programs

section Routes

variable {platform : Platform} {op : Operation} {v : Seen}

/-- Whatever a call sees and returns is fine. -/
abbrev Done {α : Type} (_ : Seen) (_ : Except Failure α) : Prop := True

theorem authorize_asks {token : Option String} (htoken : op.token = token) (roles : List String) :
    (authorize token roles).Obeys look (Asks platform op)
      (fun w x => ∀ cl, x = .ok cl → w.caller = some cl ∧ cl.role ∈ roles) v := by
  unfold authorize verifyToken
  cases token with
  | none => exact fun cl h => by cases h
  | some token =>
    have hverify : (ask (.verify token)).Obeys look (Asks platform op)
        (fun w x => ∀ cl, x = .ok cl → w.caller = some cl) v :=
      Program.Obeys.call htoken (fun cl cl' h => congrArg some (Except.ok.inj h))
        fun e cl h => by cases h
    have htry : (tryCatch (ask (.verify token))
        fun _ => throw (.http 401 "Invalid token" none)).Obeys look (Asks platform op)
          (fun w x => ∀ cl, x = .ok cl → w.caller = some cl) v :=
      hverify.tryCatch (fun _ _ h => h) fun w e _ cl h => by cases h
    refine Program.Obeys.bind htry (fun w cl hw => ?_) fun w e _ cl h => by cases h
    refine .ite (fun _ cl h => by cases h) fun hrole cl' h => ?_
    cases h
    exact ⟨hw cl rfl, not_not.mp hrole⟩

theorem findFreeSlug_asks (base slug : String) (suffix tries : ℕ) :
    (findFreeSlug base slug suffix tries).Obeys look (Asks platform op) (fun w _ => w = v) v := by
  induction tries generalizing slug suffix with
  | zero => exact rfl
  | succ tries ih =>
    refine Program.Obeys.call_bind trivial (fun taken => ?_) fun _ => rfl
    cases taken with
    | none => exact rfl
    | some taken => exact ih _ _

/-- The account that a sign-up registers is the admin of the college that it made. -/
theorem founder_asks {college : ObjectId} {x : Registration} (hmade : v.college = some college)
    (hrole : x.role = some "admin") (hcollege : x.collegeId = some college) :
    (register platform x).Obeys look (Asks platform op)
      (fun w _ => w.caller = v.caller ∧ w.college = v.college) v := by
  refine expand_asks (register_enlists x) fun w d _ hw hd hk => .founder college ?_ ?_ ?_
  · exact hw.trans hmade
  · exact hd.trans hrole
  · rw [hk, hcollege]
    rfl

theorem signup_asks (tries : ℕ) (x : Signup) :
    (signup platform tries x).Obeys look (Asks platform op) Done {} := by
  unfold signup
  cases (x.collegeName.map trim).filter (· ≠ "") with
  | none => exact trivial
  | some collegeName =>
    refine .ite (fun _ => trivial) fun _ => ?_
    refine Program.Obeys.bind (findFreeSlug_asks _ _ _ _) (fun w slug hw => ?_) fun _ _ _ => trivial
    rw [hw]
    refine Program.Obeys.call_bind trivial (fun (college : ObjectId) => ?_) fun _ => trivial
    refine (founder_asks (v := { college := some college }) rfl rfl rfl).tryCatch
      (fun _ _ _ => trivial) fun u e hu => ?_
    exact Program.Obeys.call_bind hu.2 (fun _ => trivial) fun _ => trivial

theorem login_asks {email password : Option String} (hemail : op.email = email) :
    (login platform email password).Obeys look (Asks platform op) Done v := by
  unfold login
  cases email with
  | none => exact trivial
  | some email =>
    refine Program.Obeys.call_bind trivial (fun (user : Option User) => ?_) fun _ => trivial
    refine Program.Obeys.call_bind trivial (fun (ok : Bool) => ?_) fun _ => trivial
    cases user with
    | none => exact trivial
    | some user =>
      cases ok with
      | false => exact trivial
      | true =>
        have hfound : ((platform.toLowerCase email, user) : String × User) ∈
            v.found ++ [(platform.toLowerCase email, user)] :=
          List.mem_append_right _ (List.mem_singleton_self _)
        exact Program.Obeys.call_bind (.inr ⟨email, hemail, hfound⟩) (fun _ => trivial)
          fun _ => trivial

theorem getServiceUserId_asks : getServiceUserId.Obeys look (Asks platform op) Done v := by
  refine Program.Obeys.call_bind trivial (fun (existing : Option User) => ?_) fun _ => trivial
  cases existing with
  | some existing => exact trivial
  | none =>
    refine Program.Obeys.call_bind trivial (fun _ => ?_) fun _ => trivial
    refine Program.Obeys.call_bind trivial (fun _ => ?_) fun _ => trivial
    exact Program.Obeys.call_bind (.service rfl rfl rfl) (fun _ => trivial) fun _ => trivial

theorem resetUserPassword_asks (userId newPassword : String) :
    (resetUserPassword userId newPassword).Obeys look (Asks platform op) Done v := by
  refine Program.Obeys.call_bind trivial (fun user => ?_) fun _ => trivial
  refine .ite (fun _ => trivial) fun _ => ?_
  refine Program.Obeys.call_bind trivial (fun _ => ?_) fun _ => trivial
  exact Program.Obeys.call trivial (fun _ => trivial) fun _ => trivial

theorem program_asks (op : Operation) :
    (op.program platform).Obeys look (Asks platform op) Done {} := by
  cases op with
  | register token x =>
    refine Program.Obeys.bind (authorize_asks rfl _) (fun w cl hw => ?_) fun _ _ _ => trivial
    obtain ⟨hcaller, hrole⟩ := hw cl rfl
    exact Program.Obeys.map ((expand_asks (register_enlists _) fun w d hw _ _ _ =>
      .superadmin cl (hw.trans hcaller) (List.mem_singleton.mp hrole)).mono (fun _ _ h => h)
        fun _ _ _ => trivial)
  | signup tries x => exact Program.Obeys.map (signup_asks tries x)
  | login email password => exact Program.Obeys.map (login_asks rfl)
  | bulkImport token users defaultPassword collegeId =>
    refine Program.Obeys.map (Program.Obeys.bind (authorize_asks rfl staff) (fun w cl _ => ?_)
      fun _ _ _ => trivial)
    refine .ite (fun _ => trivial) fun _ => .ite (fun _ => trivial) fun _ => ?_
    exact (expand_asks (bulkRegister_enlists _ _ _) fun w d _ _ hrole _ =>
      .student hrole).mono (fun _ _ h => h) fun _ _ _ => trivial
  | resetPassword token userId newPassword =>
    refine Program.Obeys.map (Program.Obeys.bind (authorize_asks rfl staff) (fun w cl _ => ?_)
      fun _ _ _ => trivial)
    cases newPassword.filter (· ≠ "") with
    | none => exact trivial
    | some newPassword => exact resetUserPassword_asks _ _
  | serviceAccount => exact Program.Obeys.map getServiceUserId_asks
  | restore token =>
    refine Program.Obeys.bind (authorize_asks rfl _) (fun w cl hw => ?_) fun _ _ _ => trivial
    obtain ⟨hcaller, hrole⟩ := hw cl rfl
    exact Program.Obeys.call_bind ⟨cl, hcaller, List.mem_singleton.mp hrole⟩ (fun _ => trivial)
      fun _ => trivial

end Routes

/-! ## What requests do -/

section Serving

variable {platform : Platform} {objectId : String → Option ObjectId} {c : Choice} {st st₀ : Store}
  {r : Request} {op : Operation} {v : Seen} {cl : Claims}

/-- What is in the document of a new account. -/
theorem document_fields {d : NewUser} {base : Accounts.Store} {id : ObjectId} {u : User}
    (h : d.document objectId base id = some u) :
    u.role = d.role.getD "student" ∧ u.email = d.email ∧
      u.collegeId = (d.collegeId.map objectId).join := by
  unfold NewUser.document at h
  simp only at h
  split at h
  · cases h
  · cases h
    exact ⟨rfl, rfl, rfl⟩

/-- A request of the accounts adds an account that it creates. -/
theorem users_serve {a : Accounts.Choice} {base : Accounts.Store} {r : Accounts.Request} {u : User}
    (h : u ∈ (Accounts.serve objectId a base r).2.users) :
    u ∈ base.users ∨ ∃ d, r = .createUser d ∧ d.document objectId base a.newId = some u := by
  unfold Accounts.serve at h
  cases hrefused : a.refused with
  | some message =>
    rw [hrefused] at h
    exact .inl h
  | none =>
    rw [hrefused] at h
    cases r with
    | findCollege id =>
      simp only [Accounts.answer] at h
      split at h <;> exact .inl h
    | countUsers id n =>
      simp only [Accounts.answer] at h
      split at h <;> exact .inl h
    | hash password =>
      simp only [Accounts.answer] at h
      split at h <;> exact .inl h
    | createUser d =>
      simp only [Accounts.answer] at h
      split at h
      · rename_i w hw
        rcases List.mem_append.mp h with h | h
        · exact .inl h
        · rw [List.mem_singleton.mp h]
          exact .inr ⟨d, rfl, hw⟩
      · exact .inl h
    | deleteUsers ids => exact .inl (List.mem_of_mem_filter h)
    | _ => exact .inl h

theorem signedBy_mem {r : Accounts.Request} {x : Except Failure (Accounts.Reply r)} {token : String}
    (h : (token, cl) ∈ signedBy r x) : ∃ u, r = .sign u ∧ cl = claimsOf u := by
  cases r with
  | sign u =>
    cases x with
    | ok token' => exact ⟨u, rfl, (Prod.mk.inj (List.mem_singleton.mp h)).2⟩
    | error e => cases h
  | _ => cases h

/-- The accounts after a request are those before it, one that it creates, or what a restore
brings. -/
theorem accounts_serve {u : User} (h : u ∈ (serve platform c st r).2.base.users) :
    (∃ w ∈ st.base.users, claimsOf u = claimsOf w) ∨
    (∃ d, r = .base (.createUser d) ∧ d.document platform.objectId st.base c.newId = some u) ∨
    r = .importDatabase := by
  unfold serve at h
  cases hrefused : c.refused with
  | some message =>
    rw [hrefused] at h
    exact .inl ⟨u, h, rfl⟩
  | none =>
    rw [hrefused] at h
    cases r with
    | base r =>
      rcases users_serve h with hu | ⟨d, rfl, hd⟩
      · exact .inl ⟨u, hu, rfl⟩
      · exact .inr (.inl ⟨d, rfl, hd⟩)
    | createCollege name slug =>
      simp only [answer] at h
      split at h <;> exact .inl ⟨u, h, rfl⟩
    | updatePassword id password =>
      simp only [answer] at h
      split at h
      · obtain ⟨w, hw, rfl⟩ := List.mem_map.mp h
        refine .inl ⟨w, hw, ?_⟩
        split <;> rfl
      · exact .inl ⟨u, h, rfl⟩
    | verify token =>
      simp only [answer] at h
      split at h <;> exact .inl ⟨u, h, rfl⟩
    | compare password hash =>
      simp only [answer] at h
      split at h <;> exact .inl ⟨u, h, rfl⟩
    | findUser id =>
      simp only [answer] at h
      split at h <;> exact .inl ⟨u, h, rfl⟩
    | findSlug slug => exact .inl ⟨u, h, rfl⟩
    | deleteCollege id => exact .inl ⟨u, h, rfl⟩
    | importDatabase => exact .inr (.inr rfl)

/-- A token is signed for the account that a request names. -/
theorem signed_serve {token : String} (h : (token, cl) ∈ (serve platform c st r).2.signed) :
    (token, cl) ∈ st.signed ∨ ∃ u, r = .base (.sign u) ∧ cl = claimsOf u := by
  unfold serve at h
  cases hrefused : c.refused with
  | some message =>
    rw [hrefused] at h
    exact .inl h
  | none =>
    rw [hrefused] at h
    cases r with
    | base r =>
      rcases List.mem_append.mp h with h | h
      · exact .inl h
      · obtain ⟨u, rfl, rfl⟩ := signedBy_mem h
        exact .inr ⟨u, rfl, rfl⟩
    | findSlug slug => exact .inl h
    | deleteCollege id => exact .inl h
    | importDatabase => exact .inl h
    | _ =>
      simp only [answer] at h
      split at h <;> exact .inl h

/-- A college goes only where it is deleted. -/
theorem college_serve {id : ObjectId} (h : (st.base.college id).isSome)
    (hr : r ≠ .deleteCollege id) : ((serve platform c st r).2.base.college id).isSome := by
  have hcolleges : ∀ {base : Accounts.Store}, (base.college id).isSome ↔
      ∃ q ∈ base.colleges, q.id = id := by
    intro base
    simp only [Accounts.Store.college, List.find?_isSome, decide_eq_true_eq]
  rw [hcolleges] at h ⊢
  unfold serve
  cases c.refused with
  | some message => exact h
  | none =>
    cases r with
    | base r =>
      show ∃ q ∈ (Accounts.serve platform.objectId c.toChoice st.base r).2.colleges, q.id = id
      rw [Accounts.colleges_serve]
      exact h
    | createCollege name slug =>
      simp only [answer]
      split
      · exact h
      · obtain ⟨q, hq, hid⟩ := h
        exact ⟨q, List.mem_append_left _ hq, hid⟩
    | deleteCollege id' =>
      obtain ⟨q, hq, hid⟩ := h
      refine ⟨q, List.mem_filter.mpr ⟨hq, decide_eq_true fun heq => hr ?_⟩, hid⟩
      rw [← hid, heq]
    | updatePassword id' password =>
      simp only [answer]
      split <;> exact h
    | verify token =>
      simp only [answer]
      split <;> exact h
    | compare password hash =>
      simp only [answer]
      split <;> exact h
    | findUser id' =>
      simp only [answer]
      split <;> exact h
    | findSlug slug => exact h
    | importDatabase => exact h

theorem serve_verify {token : String} (h : (serve platform c st (.verify token)).1 = .ok cl) :
    (token, cl) ∈ st.signed := by
  unfold serve at h
  cases hrefused : c.refused with
  | some message =>
    rw [hrefused] at h
    cases h
  | none =>
    rw [hrefused] at h
    simp only [answer] at h
    split at h
    · rename_i x hx
      have htoken : x.1 = token := by simpa using List.find?_some hx
      rw [← htoken, ← Except.ok.inj h]
      exact List.mem_of_find?_eq_some hx
    · cases h

theorem serve_createCollege {name slug : String} {id : ObjectId}
    (h : (serve platform c st (.createCollege name slug)).1 = .ok id) :
    IsId platform id ∧ st.base.college id = none := by
  unfold serve at h
  cases hrefused : c.refused with
  | some message =>
    rw [hrefused] at h
    cases h
  | none =>
    rw [hrefused] at h
    simp only [answer] at h
    split at h
    · cases h
    · rename_i hvalid
      cases h
      push Not at hvalid
      exact ⟨hvalid.1, Option.not_isSome_iff_eq_none.mp hvalid.2.2.1⟩

theorem serve_findEmail {email : String} {u : User}
    (h : (serve platform c st (.base (.findEmail email))).1 = .ok (some u)) :
    u ∈ st.base.users ∧ u.email = email := by
  unfold serve at h
  cases hrefused : c.refused with
  | some message =>
    rw [hrefused] at h
    cases h
  | none =>
    simp only [hrefused, answer, Accounts.serve, Accounts.answer] at h
    have hfind := Except.ok.inj h
    exact ⟨List.mem_of_find?_eq_some hfind, by simpa using List.find?_some hfind⟩

theorem serve_createUser {d : NewUser} {u : User}
    (h : (serve platform c st (.base (.createUser d))).1 = .ok u) :
    d.document platform.objectId st.base c.newId = some u := by
  unfold serve at h
  cases hrefused : c.refused with
  | some message =>
    rw [hrefused] at h
    cases h
  | none =>
    simp only [hrefused, answer, Accounts.serve, Accounts.answer] at h
    split at h
    · rename_i w hw
      rw [hw, Except.ok.inj h]
    · cases h

/-! ## The invariant -/

/-- The accounts and the new tokens need no superadmin, and the colleges of the start are there. -/
structure Sound (st₀ st : Store) : Prop where
  accounts : ∀ u ∈ st.base.users, Confined st₀ (claimsOf u)
  signed : ∀ token cl, (token, cl) ∈ st.signed →
    (token, cl) ∈ st₀.signed ∨ Confined st₀ cl ∧ cl.role ≠ "superadmin"
  colleges : ∀ id, (st₀.base.college id).isSome → (st.base.college id).isSome

/-- What a call has seen: a caller who is no superadmin, a college of its own making, the account
of an address, and new accounts. -/
structure Trusted (platform : Platform) (st₀ : Store) (v : Seen) : Prop where
  caller : ∀ cl, v.caller = some cl → cl.role ≠ "superadmin"
  college : ∀ id, v.college = some id → IsId platform id ∧ st₀.base.college id = none
  found : ∀ x ∈ v.found, x.2.email = x.1 ∧ Confined st₀ (claimsOf x.2)
  made : ∀ u ∈ v.made, Confined st₀ (claimsOf u) ∧ u.role ≠ "superadmin"

theorem Trusted.blank : Trusted platform st₀ {} where
  caller := fun cl h => by cases h
  college := fun id h => by cases h
  found := fun x h => absurd h List.not_mem_nil
  made := fun u h => absurd h List.not_mem_nil

/-- A superadmin who needed none was one at the start. -/
theorem Confined.superadmin (h : Confined st₀ cl) (hrole : cl.role = "superadmin") :
    ∃ u ∈ st₀.base.users, claimsOf u = cl := by
  cases h with
  | initial u hu hcl => exact ⟨u, hu, hcl⟩
  | student h => exact absurd (h.symm.trans hrole) (by decide)
  | service h _ _ => exact absurd (h.symm.trans hrole) (by decide)
  | founder _ h _ _ => exact absurd (h.symm.trans hrole) (by decide)

/-- An account that a call may create needs no superadmin. -/
theorem Entitled.confined {d : NewUser} {base : Accounts.Store} {id : ObjectId} {u : User}
    (h : Entitled v d) (hv : Trusted platform st₀ v)
    (hdocument : d.document platform.objectId base id = some u) :
    Confined st₀ (claimsOf u) ∧ u.role ≠ "superadmin" := by
  obtain ⟨hrole, hemail, hcollege⟩ := document_fields hdocument
  cases h with
  | student hd =>
    rw [hd] at hrole
    exact ⟨.student hrole, ne_of_eq_of_ne hrole (by decide)⟩
  | service hd hd' hd'' =>
    rw [hd] at hrole
    rw [hd''] at hcollege
    exact ⟨.service hrole (hemail.trans hd') hcollege, ne_of_eq_of_ne hrole (by decide)⟩
  | founder q hmade hd hd' =>
    obtain ⟨hid, hnew⟩ := hv.college q hmade
    have hcast : u.collegeId = some q := by
      rw [hcollege, hd', hid.trimmed, Option.filter_some_pos (by simpa using hid.ne_empty),
        Option.map_some, hid.cast]
      rfl
    rw [hd] at hrole
    exact ⟨.founder q hrole hcast hnew, ne_of_eq_of_ne hrole (by decide)⟩
  | superadmin cl hcaller hd => exact absurd hd (hv.caller cl hcaller)

/-- What a call hears can be trusted. -/
theorem Trusted.hear (hv : Trusted platform st₀ v) (hop : op.Ordinary platform st₀)
    (hst : Sound st₀ st) (hr : Asks platform op v r) :
    Trusted platform st₀ ((service platform).hear v r (serve platform c st r).1) := by
  cases hx : (serve platform c st r).1 with
  | error e => exact hv
  | ok x =>
    show Trusted platform st₀ (look v r x)
    cases r with
    | base r =>
      cases r with
      | findEmail email =>
        cases x with
        | none => exact hv
        | some u =>
          obtain ⟨hu, hemail⟩ := serve_findEmail hx
          refine ⟨hv.caller, hv.college, fun y hy => ?_, hv.made⟩
          rcases List.mem_append.mp hy with hy | hy
          · exact hv.found y hy
          · rw [List.mem_singleton.mp hy]
            exact ⟨hemail, hst.accounts u hu⟩
      | createUser d =>
        refine ⟨hv.caller, hv.college, hv.found, fun u hu => ?_⟩
        rcases List.mem_append.mp hu with hu | hu
        · exact hv.made u hu
        · rw [List.mem_singleton.mp hu]
          exact hr.confined hv (serve_createUser hx)
      | _ => exact hv
    | verify token =>
      refine ⟨fun cl hcl => ?_, hv.college, hv.found, hv.made⟩
      rw [← Option.some.inj hcl]
      rcases hst.signed token x (serve_verify hx) with hsigned | ⟨-, hrole⟩
      · exact hop.token token x hr hsigned
      · exact hrole
    | createCollege name slug =>
      refine ⟨hv.caller, fun id hid => ?_, hv.found, hv.made⟩
      rw [← Option.some.inj hid]
      obtain ⟨hisId, hnew⟩ := serve_createCollege hx
      refine ⟨hisId, Option.not_isSome_iff_eq_none.mp fun hold => ?_⟩
      have hkept := hst.colleges _ hold
      rw [hnew] at hkept
      cases hkept
    | _ => exact hv

/-- A token that a call may sign is not for a superadmin. -/
theorem Trusted.sign {u : User} (hv : Trusted platform st₀ v) (hop : op.Ordinary platform st₀)
    (hr : Asks platform op v (.base (.sign u))) :
    Confined st₀ (claimsOf u) ∧ u.role ≠ "superadmin" := by
  rcases hr with hmade | ⟨email, hemail, hfound⟩
  · exact hv.made u hmade
  · obtain ⟨haddress, hconfined⟩ := hv.found _ hfound
    refine ⟨hconfined, fun hrole => ?_⟩
    obtain ⟨w, hw, hcl⟩ := hconfined.superadmin hrole
    have hrole' : w.role = "superadmin" := (congrArg Claims.role hcl).trans hrole
    exact hop.email email hemail w hw hrole' ((congrArg Claims.email hcl).trans haddress)

/-- A request that a call may make keeps the store sound. -/
theorem Sound.serve (hst : Sound st₀ st) (hv : Trusted platform st₀ v)
    (hop : op.Ordinary platform st₀) (hr : Asks platform op v r) :
    Sound st₀ (serve platform c st r).2 := by
  refine ⟨fun u hu => ?_, fun token cl hcl => ?_, fun id hid =>
    college_serve (hst.colleges id hid) ?_⟩
  · rcases accounts_serve hu with ⟨w, hw, hcl⟩ | ⟨d, rfl, hdocument⟩ | rfl
    · rw [hcl]
      exact hst.accounts w hw
    · exact (Entitled.confined hr hv hdocument).1
    · obtain ⟨cl, hcaller, hrole⟩ := hr
      exact absurd hrole (hv.caller cl hcaller)
  · rcases signed_serve hcl with hcl | ⟨u, rfl, rfl⟩
    · exact hst.signed token cl hcl
    · exact .inr (hv.sign hop hr)
  · rintro rfl
    rw [(hv.college id hr).2] at hid
    cases hid

end Serving

/-- **No way up**: while the superadmins of the start do not act and nobody logs in as one of them,
in every interleaving each account was there at the start, or is a student's, the service account
or that of the admin of a college that was not there; each new token is for such an account and
not for a superadmin; and the colleges of the start stay. -/
theorem roles_confined {platform : Platform} {st₀ : Store} {s : Config}
    (hs : (system platform st₀).Reachable s) (hops : ∀ op ∈ s.ops, op.Ordinary platform st₀) :
    (∀ u ∈ s.store.base.users, Confined st₀ (claimsOf u)) ∧
    (∀ token cl, (token, cl) ∈ s.store.signed →
      (token, cl) ∈ st₀.signed ∨ Confined st₀ cl ∧ cl.role ≠ "superadmin") ∧
    ∀ id, (st₀.base.college id).isSome → (s.store.base.college id).isSome := by
  obtain ⟨hsound, -⟩ := Service.reachable_upheld (S := service platform) (K := Sound st₀)
    (P := Asks platform) (F := fun v _ => Trusted platform st₀ v)
    (A := fun op => op.Ordinary platform st₀) program_asks
    { blank := fun _ _ => .blank
      served := fun c st op v r hop hr hst hv => hst.serve hv hop hr
      heard := fun c st op v r hop hr hst hv => hv.hear hop hst hr
      kept := fun _ _ _ _ _ _ _ _ _ _ hw => hw }
    (by
      rintro st rfl
      exact ⟨fun u hu => .initial u hu rfl, fun _ _ => .inl, fun _ h => h⟩) hs hops
  exact ⟨hsound.accounts, hsound.signed, hsound.colleges⟩

/-! ### A visitor -/

/-- A college with a superadmin, who has logged in. -/
def school : Store where
  base := {
    colleges := [⟨Accounts.collegeId, some "free"⟩]
    users := [{
      id := "root"
      name := "root"
      email := "root@school"
      password := "hash"
      role := "superadmin"
      usn := none
      section_ := none
      collegeId := none }] }
  tenants := [⟨Accounts.collegeId, "School", "school"⟩]
  signed := [("rootToken", ⟨"root", "superadmin", "root@school", "root", none⟩)]

/-- A visitor signs up, and then registers a superadmin with the token that this gave. -/
def visit : List (Service.Action Operation Choice) :=
  .start (.signup 2 ⟨some "School", some "Eve", some "eve@b.c", some "secret"⟩) ::
    List.replicate 9 (.serve 0 { newId := "74b7f0c2a1d3e4f5a6b7c8d9", text := "token" }) ++
    [.start (.register (some "token") {
        name := some "Eve"
        email := some "eve2@b.c"
        password := some "secret"
        role := some "superadmin"
        collegeId := none
        usn := none
        section_ := none }), .serve 1 {}]

theorem roles_confined_visit : ∃ s : Config,
    (system Accounts.plainPlatform school).run ⟨school, []⟩ visit = some s ∧
    s.store.base.users.map User.role = ["superadmin", "admin"] ∧
    ∀ u ∈ s.store.base.users, Confined school (claimsOf u) := by
  have heval : ((system Accounts.plainPlatform school).run ⟨school, []⟩ visit).map
      (fun s => (s.store.base.users.map User.role, s.ops.map fun op => (op.token, op.email))) =
        some (["superadmin", "admin"], [(none, none), (some "token", none)]) := by decide +kernel
  obtain ⟨s, hrun, hs⟩ := Option.map_eq_some_iff.mp heval
  obtain ⟨hroles, hops⟩ := Prod.mk.inj hs
  have hinit : (system Accounts.plainPlatform school).Reachable ⟨school, []⟩ := .init ⟨rfl, rfl⟩
  refine ⟨s, hrun, hroles, (roles_confined (hinit.run hrun) fun op hop => ?_).1⟩
  have hmem := List.mem_map_of_mem (f := fun op : Operation => (op.token, op.email)) hop
  rw [hops] at hmem
  have hemail : op.email = none := by
    simp only [List.mem_cons, Prod.mk.injEq, List.not_mem_nil, or_false] at hmem
    exact hmem.elim (·.2) (·.2)
  have htoken : op.token ≠ some "rootToken" := by
    intro h
    rw [h, hemail] at hmem
    exact absurd hmem (by decide)
  refine ⟨fun token cl htoken' hcl => ?_, fun email h => ?_⟩
  · have hroot : token = "rootToken" := (Prod.mk.inj (List.mem_singleton.mp hcl)).1
    exact absurd (hroot ▸ htoken') htoken
  · rw [hemail] at h
    cases h

end Sessions
