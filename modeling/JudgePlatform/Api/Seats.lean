/-
# Seats

`register` and `bulkRegister` count the users of a college before they create new
ones, and the plan of the college bounds the count.  Between the count and the
creation of a user other calls may run.

* `Accounts.service` : the two operations over the collections of users and colleges;
  every request may be refused.
* `promised` : the seats that the calls under way were let through for and have not taken.
* `seats_bounded` : in every interleaving in which a count lets a call through only where
  the promised seats still fit, the college never has more users than seats.
-/
import JudgePlatform.Api.Plans
import JudgePlatform.Library.Program
import JudgePlatform.Library.Text

namespace Accounts

open Billing

/-! ## Documents -/

abbrev ObjectId := String

structure User where
  id : ObjectId
  name : String
  email : String
  password : String
  role : String
  usn : Option String
  section_ : Option String
  collegeId : Option ObjectId

/-- The fields that `User.create` is called with. -/
structure NewUser where
  name : Option String
  email : String
  password : String
  role : Option String
  usn : Option String
  section_ : Option String
  collegeId : Option String

structure Store where
  colleges : List College
  users : List User

/-- How a call fails: with an answer of its own, or with what was thrown under it. -/
inductive Failure where
  | http (status : ℕ) (error : String) (message : Option String)
  | thrown (message : String)

def Failure.message : Failure → String
  | .http _ error _ => error
  | .thrown message => message

/-! ## Requests -/

inductive Request where
  | findEmail (email : String)
  | findUsn (usn : String)
  | findCollege (id : String)
  /-- `User.countDocuments({ collegeId })`; the seats asked for are noted for the history -/
  | countUsers (id : String) (incomingSeats : ℕ)
  /-- `bcrypt.hash` -/
  | hash (password : Option String)
  | createUser (d : NewUser)
  | deleteUsers (ids : List ObjectId)
  /-- `jwt.sign` -/
  | sign (u : User)
  /-- `Math.random().toString(36).substring(2, 10)` -/
  | randomPassword

def Reply : Request → Type
  | .findEmail _ => Option User
  | .findUsn _ => Option User
  | .findCollege _ => Option College
  | .countUsers _ _ => ℕ
  | .hash _ => String
  | .createUser _ => User
  | .deleteUsers _ => Unit
  | .sign _ => String
  | .randomPassword => String

/-- What the environment decides: a refusal with its message, the identifier of a new
document, and a text. -/
structure Choice where
  refused : Option String := none
  newId : ObjectId := ""
  text : String := ""

abbrev Task (α : Type) := Program Reply Failure α

abbrev ask (r : Request) : Task (Reply r) := Program.call r

namespace Store

/-- The users of a college. -/
def seats (s : Store) (college : ObjectId) : ℕ :=
  s.users.countP fun u => u.collegeId = some college

def college (s : Store) (id : ObjectId) : Option College := s.colleges.find? fun c => c.id = id

end Store

def roles : List String := ["superadmin", "admin", "faculty", "student"]

/-- Unset, or empty. -/
def isBlank (x : Option String) : Bool := x.all (· = "")

section Serving

-- Mongoose's cast of a string to an identifier
variable (objectId : String → Option ObjectId)

/-- The new document, where the schema and the unique indexes let it in. -/
def NewUser.document (d : NewUser) (s : Store) (id : ObjectId) : Option User :=
  let college := d.collegeId.map objectId
  if isBlank d.name || d.email = "" || d.password = "" || d.role.any (· ∉ roles) ||
      college = some none || s.users.any fun u => u.id = id || u.email = d.email ||
        (d.usn.isSome && u.usn = d.usn) then
    none
  else
    some {
      id
      name := d.name.getD ""
      email := d.email
      password := d.password
      role := d.role.getD "student"
      usn := d.usn
      section_ := d.section_
      collegeId := college.join }

/-- Serve a request that is not refused. -/
def answer (c : Choice) (s : Store) : (r : Request) → Except Failure (Reply r) × Store
  | .findEmail email => (.ok (s.users.find? fun u => u.email = email), s)
  | .findUsn usn => (.ok (s.users.find? fun u => u.usn = some usn), s)
  | .findCollege id =>
    match objectId id with
    | some college => (.ok (s.college college), s)
    | none => (.error (.thrown "Cast to ObjectId failed"), s)
  | .countUsers id _ =>
    match objectId id with
    | some college => (.ok (s.seats college), s)
    | none => (.error (.thrown "Cast to ObjectId failed"), s)
  | .hash password =>
    match password with
    | some _ => (.ok c.text, s)
    | none => (.error (.thrown "Illegal arguments: undefined, number"), s)
  | .createUser d =>
    match d.document objectId s c.newId with
    | some u => (.ok u, { s with users := s.users ++ [u] })
    | none => (.error (.thrown "User validation failed"), s)
  | .deleteUsers ids => (.ok (), { s with users := s.users.filter fun u => u.id ∉ ids })
  | .sign _ => (.ok c.text, s)
  | .randomPassword => (.ok c.text, s)

def serve (c : Choice) (s : Store) (r : Request) : Except Failure (Reply r) × Store :=
  match c.refused with
  | some message => (.error (.thrown message), s)
  | none => answer objectId c s r

end Serving

/-! ## The functions -/

/-- `\s` of a JavaScript expression, which is also what `trim` takes off. -/
def isSpace (c : Char) : Bool := (Text.isSpace c && c.toNat ≠ 0x85) || c.toNat = 0xFEFF

def trim (s : String) : String :=
  String.ofList ((s.toList.dropWhile isSpace).reverse.dropWhile isSpace).reverse

/-- `/^[^\s@]+@[^\s@]+\.[^\s@]+$/`: a name and a host around the only `@`, and a dot inside
the host. -/
def isEmail (s : String) : Bool :=
  match s.toList.splitOn '@' with
  | [name, host] =>
    name ≠ [] && !(name ++ host).any isSpace && (host.drop 1).dropLast.contains '.'
  | _ => false

def assertSeatCapacity (collegeId : Option String) (incomingSeats : ℕ) : Task Unit := do
  match collegeId.filter (· ≠ "") with
  | none => return
  | some id =>
    let college : Option College ← ask (.findCollege id)
    match college with
    | none => return
    | some college =>
      match (getPlan college.planId).seatLimit with
      | none => return
      | some seatLimit =>
        let currentSeats : ℕ ← ask (.countUsers id incomingSeats)
        if currentSeats + incomingSeats > seatLimit then
          throw (.http 402 "Seat limit reached for your plan"
            s!"Seat limit reached for your plan ({seatLimit} seats). Upgrade to add more users.")

structure PublicUser where
  id : ObjectId
  name : String
  email : String
  role : String
  usn : Option String
  section_ : Option String
  collegeId : Option ObjectId

def toPublicUser (user : User) : PublicUser where
  id := user.id
  name := user.name
  email := user.email
  role := user.role
  usn := user.usn.filter (· ≠ "")
  section_ := user.section_.filter (· ≠ "")
  collegeId := user.collegeId

structure Registration where
  name : Option String
  email : Option String
  password : Option String
  role : Option String
  collegeId : Option String
  usn : Option String
  section_ : Option String

/-- The strings of the platform: Mongoose's cast to an identifier, and `toLowerCase`. -/
structure Platform where
  objectId : String → Option ObjectId
  toLowerCase : String → String

variable (platform : Platform)

def register (x : Registration) : Task (String × PublicUser) := do
  let normalizedCollegeId := (x.collegeId.map trim).filter (· ≠ "")
  if normalizedCollegeId.any fun id => platform.objectId id = none then
    throw (.http 400 "Invalid collegeId" "collegeId must be a valid Mongo ObjectId")
  match x.email with
  | none => throw (.thrown "Cannot read properties of undefined (reading 'toLowerCase')")
  | some email =>
    let emailLower := platform.toLowerCase email
    let existing : Option User ← ask (.findEmail emailLower)
    if existing.isSome then
      throw (.http 409 "Email already registered" "Email already registered")
    let usn := (x.usn.filter (· ≠ "")).map trim
    match usn with
    | none => pure ()
    | some usn =>
      let existingUsn : Option User ← ask (.findUsn usn)
      if existingUsn.isSome then
        throw (.http 409 "USN already registered" "USN already registered")
    assertSeatCapacity normalizedCollegeId 1
    let hashed : String ← ask (.hash x.password)
    let user : User ← ask (.createUser {
      name := x.name
      email := emailLower
      password := hashed
      role := x.role
      usn
      section_ := (x.section_.filter (· ≠ "")).map trim
      collegeId := normalizedCollegeId })
    let token : String ← ask (.sign user)
    return (token, toPublicUser user)

/-! ### Registration in bulk -/

/-- A row of an upload. -/
structure Row where
  name : Option String
  email : Option String
  usn : Option String
  section_ : Option String
  password : Option String

structure RowError where
  row : ℕ
  email : String
  usn : String
  error : String

/-- A user of the batch that may be created. -/
structure Verified where
  name : String
  email : String
  plainPassword : String
  usn : Option String
  section_ : Option String

structure Created where
  id : ObjectId
  name : String
  email : String
  usn : Option String
  section_ : Option String
  role : String
  password : String

structure Batch where
  seenEmails : List String := []
  seenUsns : List String := []
  verifiedUsersToCreate : List Verified := []
  errors : List RowError := []

/-- `x ? x.trim() : ""` -/
def trimmed (x : Option String) : String := ((x.filter (· ≠ "")).map trim).getD ""

def verifyRow (defaultPassword : Option String) (i : ℕ) (userData : Row) (b : Batch) :
    Task Batch := do
  let email := platform.toLowerCase (trimmed userData.email)
  let usn := trimmed userData.usn
  let name := trimmed userData.name
  let section_ := trimmed userData.section_
  let reject (b : Batch) (error : String) : Batch :=
    { b with errors := b.errors ++ [⟨i + 1, email, usn, error⟩] }
  if name = "" then return reject b "Name is required"
  if email = "" then return reject b "Email is required"
  if !isEmail email then return reject b "Invalid email format"
  if email ∈ b.seenEmails then return reject b "Duplicate email in upload batch"
  let b := { b with seenEmails := b.seenEmails ++ [email] }
  if usn ≠ "" ∧ usn ∈ b.seenUsns then return reject b "Duplicate USN in upload batch"
  let b := if usn = "" then b else { b with seenUsns := b.seenUsns ++ [usn] }
  tryCatch
    (do
      let existingEmail : Option User ← ask (.findEmail email)
      if existingEmail.isSome then return reject b "Email already registered in system"
      let existingUsn : Option User ← if usn = "" then pure none else ask (.findUsn usn)
      if existingUsn.isSome then return reject b "USN already registered in system"
      let plainPassword : String ←
        match (userData.password.filter (· ≠ "")).or (defaultPassword.filter (· ≠ "")) with
        | some password => pure password
        | none => ask .randomPassword
      return { b with verifiedUsersToCreate := b.verifiedUsersToCreate ++ [{
        name, email, plainPassword
        usn := (some usn).filter (· ≠ "")
        section_ := (some section_).filter (· ≠ "") }] })
    fun err => return reject b s!"Validation error: {err.message}"

def verifyRows (defaultPassword : Option String) : ℕ → List Row → Batch → Task Batch
  | _, [], b => pure b
  | i, userData :: users, b => do
    let b ← verifyRow platform defaultPassword i userData b
    verifyRows defaultPassword (i + 1) users b

/-- The users of the batch that were created are deleted again. -/
def rollBack (createdIds : List ObjectId) : Task Unit := do
  if createdIds ≠ [] then ask (.deleteUsers createdIds)
  throw (.http 500
    "Catastrophic error during bulk import. All modifications in this batch have been rolled back."
    none)

def createVerified (collegeId : Option String) (userData : Verified) : Task User := do
  let hashedPassword : String ← ask (.hash userData.plainPassword)
  ask (.createUser {
    name := userData.name
    email := userData.email
    password := hashedPassword
    usn := userData.usn
    section_ := userData.section_
    role := "student"
    collegeId := collegeId.filter (· ≠ "") })

def createUsers (collegeId : Option String) : List Verified → List Created → Task (List Created)
  | [], created => pure created
  | userData :: users, created => do
    let user ← tryCatch (some <$> createVerified collegeId userData) fun _ => pure none
    match user with
    | none =>
      rollBack (created.map Created.id)
      return created
    | some user =>
      createUsers collegeId users (created ++ [{
        id := user.id
        name := user.name
        email := user.email
        usn := user.usn.filter (· ≠ "")
        section_ := user.section_.filter (· ≠ "")
        role := user.role
        password := userData.plainPassword }])

structure BulkResult where
  created : List Created
  errors : List RowError
  count : ℕ

def bulkRegister (users : List Row) (defaultPassword collegeId : Option String) :
    Task BulkResult := do
  let b ← verifyRows platform defaultPassword 0 users {}
  if b.verifiedUsersToCreate ≠ [] then
    assertSeatCapacity collegeId b.verifiedUsersToCreate.length
  let created ← createUsers collegeId b.verifiedUsersToCreate []
  return ⟨created, b.errors, created.length⟩

/-! ## Calls side by side -/

inductive Operation where
  | register (x : Registration)
  | bulkRegister (users : List Row) (defaultPassword collegeId : Option String)

inductive Answer where
  | registered (token : String) (user : PublicUser)
  | imported (results : BulkResult)

def Operation.program : Operation → Task Answer
  | .register x => (fun p => .registered p.1 p.2) <$> Accounts.register platform x
  | .bulkRegister users defaultPassword collegeId =>
    .imported <$> Accounts.bulkRegister platform users defaultPassword collegeId

/-- The college that a call names. -/
def Operation.collegeId : Operation → Option String
  | .register x => (x.collegeId.map trim).filter (· ≠ "")
  | .bulkRegister _ _ collegeId => collegeId.filter (· ≠ "")

def Operation.college (op : Operation) : Option ObjectId := op.collegeId.bind platform.objectId

/-- What a call has seen: the college that it found, the seats that its count let it
through for, and the users that it has created. -/
structure Seen where
  found : Option (Option College) := none
  granted : ℕ := 0
  taken : ℕ := 0

/-- The bound on the seats of the college found. -/
def Seen.limit (v : Seen) : Option ℕ :=
  (v.found.join).bind fun college => (getPlan college.planId).seatLimit

def look (v : Seen) : (r : Request) → Reply r → Seen
  | .findCollege _, x => { v with found := some x }
  | .countUsers _ incomingSeats, (n : ℕ) =>
    if v.limit.all (n + incomingSeats ≤ ·) then { v with granted := incomingSeats } else v
  | .createUser _, _ => { v with taken := v.taken + 1 }
  | _, _ => v

def service : Service Operation Store Choice Seen Reply Failure Answer where
  program := fun op => op.program platform
  serve := serve platform.objectId
  blank := {}
  look := look

abbrev Config := Service.Config Operation Store Seen Reply Failure Answer

abbrev Call := Service.Call Operation Seen Reply Failure Answer

/-- The seats that a call under way was let through for and has not taken. -/
def promise (q : ObjectId) (c : Call) : ℕ :=
  if c.op.college platform = some q ∧ c.rest.pending.isSome then c.view.granted - c.view.taken
  else 0

def promised (q : ObjectId) (s : Config) : ℕ := (s.calls.map (promise platform q)).sum

/-! ### What a call asks -/

/-- Nothing bounds the seats of the college that a call names. -/
def Unbounded (collegeId : Option String) (v : Seen) : Prop :=
  collegeId = none ∨ ∃ x, v.found = some x ∧ v.limit = none

/-- The call may still create `n` users. -/
def Covered (collegeId : Option String) (n : ℕ) (v : Seen) : Prop :=
  Unbounded collegeId v ∨ v.taken + n ≤ v.granted

/-- A call looks for its college and counts its users before it creates any; it creates users
of its college only, and only as many as it was let through for. -/
def Asks (collegeId : Option String) (v : Seen) : Request → Prop
  | .findCollege id => collegeId = some id
  | .countUsers id _ => collegeId = some id ∧ v.granted = 0 ∧ v.taken = 0 ∧ v.limit.isSome
  | .createUser d => d.collegeId = collegeId ∧ Covered collegeId 1 v
  | _ => True

theorem Covered.mono {collegeId : Option String} {m n : ℕ} {v : Seen} (h : Covered collegeId n v)
    (hmn : m ≤ n) : Covered collegeId m v := by
  rcases h with h | h
  · exact Or.inl h
  · exact Or.inr (by omega)

/-- A created user takes one of the seats. -/
theorem Covered.take {collegeId : Option String} {n : ℕ} {v : Seen}
    (h : Covered collegeId (n + 1) v) : Covered collegeId n { v with taken := v.taken + 1 } := by
  rcases h with h | h
  · exact Or.inl h
  · refine Or.inr ?_
    show v.taken + 1 + n ≤ v.granted
    omega

/-! ### The operations keep to it -/

/-- Whatever a program returns is fine. -/
abbrev Any {α : Type} (_ : Seen) (_ : Except Failure α) : Prop := True

theorem assertSeatCapacity_obeys (collegeId : Option String) (n : ℕ) :
    (assertSeatCapacity collegeId n).Obeys look (Asks (collegeId.filter (· ≠ "")))
      (fun v x => x = .ok () → Covered (collegeId.filter (· ≠ "")) n v) {} := by
  unfold assertSeatCapacity
  cases hid : collegeId.filter (· ≠ "") with
  | none => exact fun _ => Or.inl (Or.inl rfl)
  | some id =>
    refine Program.Obeys.call_bind rfl (fun x => ?_) fun e h => by cases h
    cases x with
    | none => exact fun _ => Or.inl (Or.inr ⟨none, rfl, rfl⟩)
    | some college =>
      cases hlimit : (getPlan college.planId).seatLimit with
      | none =>
        simp only [hlimit]
        exact fun _ => Or.inl (Or.inr ⟨some college, rfl, hlimit⟩)
      | some seatLimit =>
        simp only [hlimit]
        have hbound : Seen.limit { found := some (some college) } = some seatLimit := hlimit
        refine Program.Obeys.call_bind ⟨rfl, rfl, rfl, ?_⟩ (fun (count : ℕ) => ?_) fun e h => by cases h
        · show (Seen.limit { found := some (some college) }).isSome
          rw [hbound]
          rfl
        · have hlook : look { found := some (some college) } (.countUsers id n) count =
              if count + n ≤ seatLimit then { found := some (some college), granted := n }
              else { found := some (some college) } := by
            show (if (Seen.limit { found := some (some college) }).all _ then _ else _) = _
            rw [hbound]
            simp
          show Program.Obeys look _ _ (look { found := some (some college) } (.countUsers id n)
            count) _
          rw [hlook]
          by_cases hfits : count + n > seatLimit
          · rw [if_pos hfits]
            exact fun h => by cases h
          · rw [if_neg hfits, if_pos (Nat.le_of_not_lt hfits)]
            exact fun _ => Or.inr (le_of_eq (Nat.zero_add n))

section Spec

variable {platform : Platform} {k collegeId : Option String} {n : ℕ} {v : Seen}

theorem register_obeys (x : Registration) :
    (register platform x).Obeys look (Asks (Operation.register x).collegeId) Any {} := by
  unfold register
  let k := (Operation.register x).collegeId
  have hcreate : ∀ (emailLower : String) (usn : Option String),
      (do
        assertSeatCapacity ((x.collegeId.map trim).filter (· ≠ "")) 1
        let hashed : String ← ask (.hash x.password)
        let user : User ← ask (.createUser {
          name := x.name
          email := emailLower
          password := hashed
          role := x.role
          usn
          section_ := (x.section_.filter (· ≠ "")).map trim
          collegeId := (x.collegeId.map trim).filter (· ≠ "") })
        let token : String ← ask (.sign user)
        return (token, toPublicUser user)).Obeys look (Asks k) Any {} := by
    intro emailLower usn
    have hk : k.filter (· ≠ "") = k := by
      show (Option.filter _ _).filter _ = Option.filter _ _
      rw [Option.filter_filter]
      simp
    have hseats := assertSeatCapacity_obeys k 1
    rw [hk] at hseats
    refine Program.Obeys.bind hseats (fun w _ hw => ?_) fun _ _ _ => trivial
    refine Program.Obeys.call_bind trivial (fun _ => ?_) fun _ => trivial
    refine Program.Obeys.call_bind ⟨rfl, hw rfl⟩ (fun _ => ?_) fun _ => trivial
    exact Program.Obeys.call_bind trivial (fun _ => trivial) fun _ => trivial
  refine .ite (fun _ => trivial) fun _ => ?_
  cases x.email with
  | none => exact trivial
  | some email =>
    refine Program.Obeys.call_bind trivial (fun existing => ?_) fun _ => trivial
    refine .ite (fun _ => trivial) fun _ => ?_
    cases (x.usn.filter (· ≠ "")).map trim with
    | none => exact hcreate _ _
    | some usn =>
      refine Program.Obeys.call_bind trivial (fun existingUsn => ?_) fun _ => trivial
      exact .ite (fun _ => trivial) fun _ => hcreate _ _

theorem verifyRow_obeys (defaultPassword : Option String) (i : ℕ) (userData : Row) (b : Batch) :
    (verifyRow platform defaultPassword i userData b).Obeys look (Asks k) (fun w _ => w = v) v := by
  unfold verifyRow
  refine .ite (fun _ => rfl) fun _ => .ite (fun _ => rfl) fun _ => .ite (fun _ => rfl) fun _ =>
    .ite (fun _ => rfl) fun _ => .ite (fun _ => rfl) fun _ => ?_
  have htry : ∀ (t : Task Batch) (h : Failure → Batch), t.Obeys look (Asks k) (fun w _ => w = v) v →
      (tryCatch t fun e => pure (h e)).Obeys look (Asks k) (fun w _ => w = v) v :=
    fun t h ht => ht.tryCatch (fun _ _ hw => hw) fun _ _ hw => hw
  have hpassword : ∀ f : String → Batch,
      (do
        let plainPassword : String ←
          match (userData.password.filter (· ≠ "")).or (defaultPassword.filter (· ≠ "")) with
          | some password => pure password
          | none => ask .randomPassword
        return f plainPassword : Task Batch).Obeys look (Asks k) (fun w _ => w = v) v := by
    intro f
    cases (userData.password.filter (· ≠ "")).or (defaultPassword.filter (· ≠ "")) with
    | some password => exact rfl
    | none => exact Program.Obeys.call_bind trivial (fun _ => rfl) fun _ => rfl
  refine htry _ _ (Program.Obeys.call_bind trivial (fun existingEmail => ?_) fun _ => rfl)
  refine .ite (fun _ => rfl) fun _ => .ite (fun _ => ?_) fun _ => ?_
  · exact hpassword _
  · refine Program.Obeys.call_bind trivial (fun existingUsn => ?_) fun _ => rfl
    exact .ite (fun _ => rfl) fun _ => hpassword _

theorem verifyRows_obeys (defaultPassword : Option String) (i : ℕ) (users : List Row) (b : Batch) :
    (verifyRows platform defaultPassword i users b).Obeys look (Asks k) (fun w _ => w = v) v := by
  induction users generalizing i b with
  | nil => exact rfl
  | cons userData users ih =>
    refine Program.Obeys.bind (verifyRow_obeys defaultPassword i userData b) ?_ fun _ _ h => h
    rintro w b rfl
    exact ih (i + 1) b

theorem rollBack_obeys (createdIds : List ObjectId) :
    (rollBack createdIds).Obeys look (Asks k) Any v := by
  unfold rollBack
  by_cases hnil : createdIds = []
  · rw [if_neg (not_not_intro hnil)]
    exact trivial
  · rw [if_pos hnil]
    exact Program.Obeys.call_bind trivial (fun _ => trivial) fun _ => trivial

theorem createVerified_obeys (userData : Verified)
    (h : Covered (collegeId.filter (· ≠ "")) (n + 1) v) :
    (createVerified collegeId userData).Obeys look (Asks (collegeId.filter (· ≠ "")))
      (fun w x => ∀ u, x = .ok u → Covered (collegeId.filter (· ≠ "")) n w) v := by
  refine Program.Obeys.call_bind trivial (fun _ => ?_) fun e u h => by cases h
  exact Program.Obeys.call ⟨rfl, h.mono (Nat.le_add_left 1 n)⟩ (fun _ _ _ => h.take)
    fun e u h => by cases h

/-- As many users are created as the call is covered for. -/
theorem createUsers_obeys (users : List Verified) (created : List Created)
    (h : Covered (collegeId.filter (· ≠ "")) users.length v) :
    (createUsers collegeId users created).Obeys look (Asks (collegeId.filter (· ≠ ""))) Any v := by
  induction users generalizing v created with
  | nil => exact trivial
  | cons userData users ih =>
    have hsome : (some <$> createVerified collegeId userData).Obeys look
        (Asks (collegeId.filter (· ≠ "")))
        (fun w x => ∀ u, x = .ok (some u) → Covered (collegeId.filter (· ≠ "")) users.length w)
        v := by
      refine Program.Obeys.map ((createVerified_obeys userData h).mono (fun _ _ h => h) ?_)
      intro w x hx u hu
      cases x with
      | error e => cases hu
      | ok u => exact hx u rfl
    have hcreate : (tryCatch (some <$> createVerified collegeId userData) fun _ => pure none).Obeys
        look (Asks (collegeId.filter (· ≠ "")))
        (fun w x => ∀ u, x = .ok (some u) → Covered (collegeId.filter (· ≠ "")) users.length w)
        v :=
      hsome.tryCatch (fun _ _ h => h) fun w e _ u hu => by cases hu
    refine Program.Obeys.bind hcreate (fun w user hw => ?_) fun _ _ _ => trivial
    cases user with
    | none => exact Program.Obeys.bind (rollBack_obeys _) (fun _ _ _ => trivial) fun _ _ _ => trivial
    | some user => exact ih _ (hw user rfl)

theorem bulkRegister_obeys (users : List Row) (defaultPassword collegeId : Option String) :
    (bulkRegister platform users defaultPassword collegeId).Obeys look
      (Asks (collegeId.filter (· ≠ ""))) Any {} := by
  refine Program.Obeys.bind (verifyRows_obeys (v := {}) defaultPassword 0 users {}) ?_
    fun _ _ _ => trivial
  rintro w b rfl
  have hcreate : ∀ w, Covered (collegeId.filter (· ≠ "")) b.verifiedUsersToCreate.length w →
      (do
        let created ← createUsers collegeId b.verifiedUsersToCreate []
        return (⟨created, b.errors, created.length⟩ : BulkResult)).Obeys look
          (Asks (collegeId.filter (· ≠ ""))) Any w :=
    fun w hw => Program.Obeys.bind (createUsers_obeys _ [] hw) (fun _ _ _ => trivial)
      fun _ _ _ => trivial
  refine .ite (fun _ => ?_) fun hnil => ?_
  · exact Program.Obeys.bind (assertSeatCapacity_obeys collegeId _)
      (fun w _ hw => hcreate w (hw rfl)) fun _ _ _ => trivial
  · apply hcreate
    rw [not_not.mp hnil]
    exact Or.inr (le_refl _)

end Spec

theorem program_obeys (platform : Platform) (op : Operation) :
    (op.program platform).Obeys look (Asks op.collegeId) Any {} := by
  cases op with
  | register x => exact Program.Obeys.map (register_obeys x)
  | bulkRegister users defaultPassword collegeId =>
    exact Program.Obeys.map (bulkRegister_obeys users defaultPassword collegeId)

/-! ## The bound -/

section Serve

variable {objectId : String → Option ObjectId} {c : Choice} {s : Store} {r : Request}

/-- No request changes the colleges. -/
theorem colleges_serve (c : Choice) (s : Store) (r : Request) :
    (serve objectId c s r).2.colleges = s.colleges := by
  unfold serve
  cases c.refused with
  | some message => rfl
  | none =>
    cases r with
    | findCollege id => simp only [answer]; split <;> rfl
    | countUsers id n => simp only [answer]; split <;> rfl
    | hash password => simp only [answer]; split <;> rfl
    | createUser d => simp only [answer]; split <;> rfl
    | _ => rfl

/-- Only the creation of a user makes a college have more of them. -/
theorem seats_serve (c : Choice) (s : Store) (hr : ∀ d, r ≠ .createUser d) (q : ObjectId) :
    (serve objectId c s r).2.seats q ≤ s.seats q := by
  unfold serve
  cases c.refused with
  | some message => exact le_refl _
  | none =>
    cases r with
    | findCollege id => simp only [answer]; split <;> exact le_refl _
    | countUsers id n => simp only [answer]; split <;> exact le_refl _
    | hash password => simp only [answer]; split <;> exact le_refl _
    | createUser d => exact absurd rfl (hr d)
    | deleteUsers ids => exact List.Sublist.countP_le List.filter_sublist
    | _ => exact le_refl _

/-- A user is created in the college named, or not at all. -/
theorem serve_createUser (c : Choice) (s : Store) (d : NewUser) :
    (∃ e, serve objectId c s (.createUser d) = (.error e, s)) ∨
      ∃ u : User, serve objectId c s (.createUser d) = (.ok u, { s with users := s.users ++ [u] }) ∧
        u.collegeId = d.collegeId.bind objectId := by
  unfold serve
  cases c.refused with
  | some message => exact Or.inl ⟨_, rfl⟩
  | none =>
    simp only [answer]
    cases hdoc : d.document objectId s c.newId with
    | none => exact Or.inl ⟨_, rfl⟩
    | some u =>
      refine Or.inr ⟨u, rfl, ?_⟩
      unfold NewUser.document at hdoc
      simp only at hdoc
      split at hdoc
      · cases hdoc
      · rw [← Option.some.inj hdoc]
        cases d.collegeId <;> rfl

theorem seats_append (s : Store) (u : User) (q : ObjectId) :
    Store.seats { s with users := s.users ++ [u] } q =
      s.seats q + if u.collegeId = some q then 1 else 0 := by
  unfold Store.seats
  rw [List.countP_append, List.countP_singleton]
  simp

end Serve

structure SeatInv (q : ObjectId) (limit : ℕ) (s : Config) : Prop where
  bounded : s.store.seats q + promised platform q s ≤ limit
  college : ∃ c, s.store.college q = some c ∧ (getPlan c.planId).seatLimit = some limit
  found : ∀ c ∈ s.calls, c.op.college platform = some q → ∀ x, c.view.found = some x →
    x = s.store.college q

/-- A count lets a call through only where the seats that were promised to calls still fit. -/
def SeatsKept (q : ObjectId) (limit : ℕ) (s : Config) : Service.Action Operation Choice → Prop
  | .start _ => True
  | .serve i _ => ∀ op v id incomingSeats next,
    s.calls[i]? = some ⟨op, v, .ask (.countUsers id incomingSeats) next⟩ →
    platform.objectId id = some q → s.store.seats q + incomingSeats ≤ limit →
    s.store.seats q + promised platform q s + incomingSeats ≤ limit

section Bound

variable {platform : Platform} {q : ObjectId} {limit : ℕ}

theorem promise_le (op : Operation) (v : Seen) (p : Task Answer) :
    promise platform q ⟨op, v, p⟩ ≤ v.granted - v.taken := by
  unfold promise
  split
  · exact le_refl _
  · exact Nat.zero_le _

theorem promise_ask {op : Operation} (h : op.college platform = some q) (v : Seen) (r : Request)
    (next : Except Failure (Reply r) → Task Answer) :
    promise platform q ⟨op, v, .ask r next⟩ = v.granted - v.taken := if_pos ⟨h, rfl⟩

theorem promise_other {op : Operation} (h : op.college platform ≠ some q) (v : Seen)
    (p : Task Answer) : promise platform q ⟨op, v, p⟩ = 0 := if_neg fun hc => h hc.1

/-- What a served call promises afterwards, when it was let through for no more seats and has
taken no fewer. -/
theorem promise_next {op : Operation} {v w : Seen} {r : Request}
    {next : Except Failure (Reply r) → Task Answer} (p : Task Answer)
    (h : w.granted - w.taken ≤ v.granted - v.taken) :
    promise platform q ⟨op, w, p⟩ ≤ promise platform q ⟨op, v, .ask r next⟩ := by
  by_cases hop : op.college platform = some q
  · rw [promise_ask hop]
    exact (promise_le op w p).trans h
  · rw [promise_other hop]
    exact Nat.zero_le _

/-- What a call has found out about its college is so. -/
theorem SeatInv.found_next {s : Config} {i : ℕ} {e : Choice} {op : Operation} {v : Seen}
    {r : Request} {next : Except Failure (Reply r) → Task Answer}
    (hinv : SeatInv platform q limit s) (hi : s.calls[i]? = some ⟨op, v, .ask r next⟩)
    (hasks : Asks op.collegeId v r) (hop : op.college platform = some q) (x : Option College)
    (hx : ((service platform).hear v r (serve platform.objectId e s.store r).1).found = some x) :
    x = s.store.college q := by
  have hold : v.found = some x → x = s.store.college q :=
    fun h => hinv.found _ (List.mem_of_getElem? hi) hop x h
  cases hanswer : (serve platform.objectId e s.store r).1 with
  | error err =>
    rw [hanswer] at hx
    exact hold hx
  | ok y =>
    rw [hanswer] at hx
    cases r with
    | findCollege id =>
      have hid : platform.objectId id = some q := by
        have hbind := hop
        unfold Operation.college at hbind
        rwa [show op.collegeId = some id from hasks] at hbind
      unfold serve at hanswer
      split at hanswer
      · cases hanswer
      · simp only [answer, hid] at hanswer
        rw [← Option.some.inj hx]
        exact (Except.ok.inj hanswer).symm
    | countUsers id n =>
      have hfound : (look v (.countUsers id n) y).found = v.found := by
        show (ite _ _ _ : Seen).found = _
        split <;> rfl
      exact hold (hfound.symm.trans hx)
    | _ => exact hold hx

/-- A count that lets a call through leaves room for the seats it asks for. -/
theorem SeatInv.count_next {s : Config} {i : ℕ} {e : Choice} {op : Operation} {v : Seen}
    {id : String} {n : ℕ} {next : Except Failure ℕ → Task Answer}
    (hinv : SeatInv platform q limit s)
    (hi : s.calls[i]? = some ⟨op, v, .ask (.countUsers id n) next⟩)
    (hasks : Asks op.collegeId v (.countUsers id n))
    (hkept : SeatsKept platform q limit s (.serve i e)) (p : Task Answer) :
    s.store.seats q + promised platform q s + promise platform q ⟨op, (service platform).hear v
      (.countUsers id n) (serve platform.objectId e s.store (.countUsers id n)).1, p⟩ ≤ limit := by
  obtain ⟨hid, hgranted, -, hlimit⟩ := hasks
  have hnone : ∀ w : Seen, w.granted = 0 →
      s.store.seats q + promised platform q s + promise platform q ⟨op, w, p⟩ ≤ limit := by
    intro w hw
    have hp : promise platform q ⟨op, w, p⟩ ≤ w.granted - w.taken := promise_le op w p
    rw [hw, Nat.zero_sub] at hp
    rw [Nat.le_zero.mp hp]
    exact hinv.bounded
  by_cases hop : op.college platform = some q
  · have hq : platform.objectId id = some q := by
      unfold Operation.college at hop
      rwa [hid] at hop
    have hok : ∀ count : ℕ, (serve platform.objectId e s.store (.countUsers id n)).1 = .ok count →
        s.store.seats q + promised platform q s +
          promise platform q ⟨op, look v (.countUsers id n) count, p⟩ ≤ limit := by
      intro count hanswer
      have hcount : count = s.store.seats q := by
        unfold serve at hanswer
        split at hanswer
        · cases hanswer
        · simp only [answer, hq] at hanswer
          exact (Except.ok.inj hanswer).symm
      show _ + promise platform q ⟨op, (if v.limit.all (count + n ≤ ·) then
        { v with granted := n } else v), p⟩ ≤ limit
      by_cases hall : v.limit.all (count + n ≤ ·) = true
      · rw [if_pos hall]
        obtain ⟨l, hl⟩ := Option.isSome_iff_exists.mp hlimit
        obtain ⟨c, hc, hplan⟩ := hinv.college
        have hl' : l = limit := by
          unfold Seen.limit at hl
          cases hfound : v.found with
          | none =>
            rw [hfound] at hl
            cases hl
          | some x =>
            have hx := hinv.found _ (List.mem_of_getElem? hi) hop x hfound
            rw [hfound, hx, hc] at hl
            exact Option.some.inj (hl.symm.trans hplan)
        have hfits : s.store.seats q + n ≤ limit := by
          rw [hl, Option.all_some, decide_eq_true_eq, hcount, hl'] at hall
          exact hall
        have hroom := hkept op v id n next hi hq hfits
        have hp : promise platform q ⟨op, { v with granted := n }, p⟩ ≤ n :=
          (promise_le op _ p).trans (Nat.sub_le n v.taken)
        exact (Nat.add_le_add_left hp _).trans hroom
      · rw [if_neg hall]
        exact hnone v hgranted
    cases hanswer : (serve platform.objectId e s.store (.countUsers id n)).1 with
    | error err => exact hnone v hgranted
    | ok count => exact hok count hanswer
  · rw [promise_other hop]
    exact hinv.bounded

/-- A call that creates a user of the college was promised a seat. -/
theorem SeatInv.covered {s : Config} {i : ℕ} {op : Operation} {v : Seen} {d : NewUser}
    {next : Except Failure User → Task Answer} (hinv : SeatInv platform q limit s)
    (hi : s.calls[i]? = some ⟨op, v, .ask (.createUser d) next⟩)
    (hasks : Asks op.collegeId v (.createUser d))
    (hq : d.collegeId.bind platform.objectId = some q) :
    op.college platform = some q ∧ v.taken + 1 ≤ v.granted := by
  obtain ⟨hcollege, hcovered⟩ := hasks
  have hop : op.college platform = some q := by
    unfold Operation.college
    rwa [← hcollege]
  refine ⟨hop, ?_⟩
  rcases hcovered with (hnone | ⟨x, hfound, hlimit⟩) | hle
  · rw [hcollege, hnone] at hq
    cases hq
  · obtain ⟨c, hc, hplan⟩ := hinv.college
    have hx := hinv.found _ (List.mem_of_getElem? hi) hop x hfound
    unfold Seen.limit at hlimit
    rw [hfound, hx, hc] at hlimit
    cases hlimit.symm.trans hplan
  · exact hle

/-- **One step keeps the bound.** -/
theorem SeatInv.step {s s' : Config} {act : Service.Action Operation Choice}
    (hobeys : Service.CallsObey (service platform) (fun op => Asks op.collegeId) (fun _ => Any) s)
    (hinv : SeatInv platform q limit s) (hkept : SeatsKept platform q limit s act)
    (hstep : (service platform).step s act = some s') : SeatInv platform q limit s' := by
  obtain ⟨op, -, rfl⟩ | ⟨i, e, op, v, r, next, rfl, hi, rfl⟩ := Service.step_cases hstep
  · refine ⟨?_, hinv.college, fun c hc hop x hx => ?_⟩
    · have hnew : promise platform q ((service platform).begin op) = 0 :=
        Nat.le_zero.mp (promise_le op {} _)
      show s.store.seats q + ((s.calls ++ [_]).map _).sum ≤ limit
      rw [List.map_append, List.sum_append, List.map_singleton, List.sum_singleton, hnew,
        Nat.add_zero]
      exact hinv.bounded
    · rcases List.mem_append.mp hc with hc | hc
      · exact hinv.found c hc hop x hx
      · rw [List.mem_singleton.mp hc] at hx
        cases hx
  · have hasks : Asks op.collegeId v r := hobeys.request hi
    let w := (service platform).hear v r (serve platform.objectId e s.store r).1
    let p := next (serve platform.objectId e s.store r).1
    let st := (serve platform.objectId e s.store r).2
    have hstore : st.college q = s.store.college q := by
      show Store.college _ q = _
      unfold Store.college
      rw [colleges_serve]
    have hsum : promised platform q ⟨st, s.calls.set i ⟨op, w, p⟩⟩ +
        promise platform q ⟨op, v, .ask r next⟩ =
        promised platform q s + promise platform q ⟨op, w, p⟩ := List.sum_map_set hi
    have hbound := hinv.bounded
    refine ⟨?_, ?_, fun c hc hop x hx => ?_⟩
    · -- nothing new is promised, unless a count lets the call through
      have hquiet : st.seats q ≤ s.store.seats q → w.granted - w.taken ≤ v.granted - v.taken →
          st.seats q + promised platform q ⟨st, s.calls.set i ⟨op, w, p⟩⟩ ≤ limit := by
        intro hseats hle
        have hp : promise platform q ⟨op, w, p⟩ ≤ promise platform q ⟨op, v, .ask r next⟩ :=
          promise_next p hle
        omega
      show st.seats q + promised platform q ⟨st, s.calls.set i ⟨op, w, p⟩⟩ ≤ limit
      cases r with
      | countUsers id n =>
        have hseats : st.seats q ≤ s.store.seats q := seats_serve e s.store (fun d h => by cases h) q
        have hcount := hinv.count_next hi hasks hkept p
        have hp : s.store.seats q + promised platform q s + promise platform q ⟨op, w, p⟩ ≤ limit :=
          hcount
        omega
      | createUser d =>
        rcases @serve_createUser platform.objectId e s.store d with
          ⟨err, herr⟩ | ⟨u, hu, hcollege⟩
        · have hw : w = v := by
            show (service platform).hear v _ _ = v
            rw [herr]
            rfl
          have hst : st = s.store := congrArg Prod.snd herr
          exact hquiet (by rw [hst]) (by rw [hw])
        · have hw : w = { v with taken := v.taken + 1 } := by
            show (service platform).hear v _ _ = _
            rw [hu]
            rfl
          have hseats : st.seats q = s.store.seats q + if u.collegeId = some q then 1 else 0 := by
            show Store.seats (serve _ _ _ _).2 q = _
            rw [hu]
            exact seats_append s.store u q
          have hle : w.granted - w.taken ≤ v.granted - v.taken := by
            rw [hw]
            exact Nat.sub_le_sub_left (Nat.le_succ _) _
          by_cases hq : u.collegeId = some q
          · rw [if_pos hq] at hseats
            obtain ⟨hop, hcovered⟩ := hinv.covered hi hasks (hcollege.symm.trans hq)
            have hold := promise_ask hop v (.createUser d) next
            have hnew : promise platform q ⟨op, w, p⟩ ≤ w.granted - w.taken := promise_le op w p
            have htaken : w.granted - w.taken + 1 = v.granted - v.taken := by
              rw [hw]
              show v.granted - (v.taken + 1) + 1 = _
              omega
            omega
          · rw [if_neg hq] at hseats
            exact hquiet (le_of_eq hseats) hle
      | _ =>
        refine hquiet (seats_serve e s.store (fun d h => by cases h) q) (le_of_eq ?_)
        show Seen.granted (Service.hear _ _ _ _) - Seen.taken (Service.hear _ _ _ _) = _
        cases (serve platform.objectId e s.store _).1 <;> rfl
    · show ∃ c, st.college q = some c ∧ _
      rw [hstore]
      exact hinv.college
    · show x = st.college q
      rw [hstore]
      rcases List.mem_or_eq_of_mem_set hc with hc | rfl
      · exact hinv.found c hc hop x hx
      · exact hinv.found_next hi hasks hop x hx

end Bound

/-- The college exists, with no more users than its plan has seats. -/
def Within (q : ObjectId) (limit : ℕ) (s : Store) : Prop :=
  s.seats q ≤ limit ∧ ∃ c, s.college q = some c ∧ (getPlan c.planId).seatLimit = some limit

def system (platform : Platform) (q : ObjectId) (limit : ℕ) :=
  (service platform).system (Within q limit)

/-- **The seats of a college**: in every interleaving of registrations, alone and in bulk, whose
counts let a call through only where the seats promised to the calls under way still fit, the
college has no more users than its plan has seats. -/
theorem seats_bounded {platform : Platform} {q : ObjectId} {limit : ℕ} {s : Config}
    (hs : (system platform q limit).ReachableVia (SeatsKept platform q limit) s) :
    s.store.seats q ≤ limit := by
  suffices hinv : SeatInv platform q limit s from
    (Nat.le_add_right _ _).trans hinv.bounded
  induction hs with
  | @init s h =>
    obtain ⟨⟨hseats, hcollege⟩, hcalls⟩ := h
    refine ⟨?_, hcollege, fun c hc => ?_⟩
    · unfold promised
      rw [hcalls]
      exact hseats
    · rw [hcalls] at hc
      cases hc
  | step hs hkept hstep ih =>
    exact ih.step (Service.reachable_callsObey (program_obeys platform) hs) hkept hstep

/-! ### Two registrations for one seat -/

def plainPlatform : Platform where
  objectId := fun id => if id.length = 24 then some id else none
  toLowerCase := Text.toLower

def collegeId : ObjectId := "64b7f0c2a1d3e4f5a6b7c8d9"

/-- A college on the free plan, with all seats but one taken. -/
def almostFull : Store where
  colleges := [⟨collegeId, none⟩]
  users := (List.range 14).map fun n =>
    { id := Text.itoa n
      name := "student"
      email := Text.itoa n
      password := "hash"
      role := "student"
      usn := none
      section_ := none
      collegeId := collegeId }

theorem almostFull_within : Within collegeId 15 almostFull :=
  ⟨by decide +kernel, _, rfl, rfl⟩

def student (email : String) : Operation :=
  .register {
    name := "student"
    email
    password := "secret"
    role := none
    collegeId := collegeId
    usn := none
    section_ := none }

/-- Serve the `i`-th call, with a new identifier and a hash. -/
def serveNext (i : ℕ) : Service.Action Operation Choice :=
  .serve i { newId := s!"user{i}", text := "hash" }

/-- What `SeatsKept` asks, as a check. -/
def seatsKept (platform : Platform) (q : ObjectId) (limit : ℕ) (s : Config) :
    Service.Action Operation Choice → Bool
  | .start _ => true
  | .serve i _ =>
    match s.calls[i]? with
    | some ⟨_, _, .ask (.countUsers _ incomingSeats) _⟩ =>
      s.store.seats q + promised platform q s + incomingSeats ≤ limit
    | _ => true

theorem seatsKept_of_check {platform : Platform} {q : ObjectId} {limit : ℕ} (s : Config)
    (a : Service.Action Operation Choice) (h : seatsKept platform q limit s a = true) :
    SeatsKept platform q limit s a := by
  cases a with
  | start op => exact trivial
  | serve i c =>
    intro op v id incomingSeats next hi _ _
    simp only [seatsKept, hi, decide_eq_true_eq] at h
    exact h

/-- The last seat is taken. -/
theorem seats_bounded_last : ∃ s : Config, s.store.seats collegeId = 15 ∧
    s.store.seats collegeId ≤ 15 := by
  let T := system plainPlatform collegeId 15
  have heval : (T.runWhen (seatsKept plainPlatform collegeId 15) ⟨almostFull, []⟩
      (.start (student "a@b.c") :: List.replicate 6 (serveNext 0))).map
        (fun s => s.store.seats collegeId) = some 15 := by decide +kernel
  obtain ⟨s, hrun, hseats⟩ := Option.map_eq_some_iff.mp heval
  have hinit : T.ReachableVia (SeatsKept plainPlatform collegeId 15) ⟨almostFull, []⟩ :=
    .init ⟨almostFull_within, rfl⟩
  exact ⟨s, hseats, seats_bounded
    (hinit.trans (TransitionSystem.runVia_of_runWhen seatsKept_of_check hrun))⟩

/-- **Two registrations that count before either creates its user both pass**, and the college
has more users than seats. -/
theorem seats_bounded_fails : ∃ s : Config,
    (system plainPlatform collegeId 15).Reachable s ∧ ¬s.store.seats collegeId ≤ 15 := by
  let T := system plainPlatform collegeId 15
  have heval : (T.run ⟨almostFull, []⟩
      (.start (student "a@b.c") :: .start (student "d@e.f") ::
        (List.replicate 3 (serveNext 0) ++ List.replicate 3 (serveNext 1) ++
          List.replicate 2 (serveNext 0) ++ List.replicate 2 (serveNext 1)))).map
        (fun s => s.store.seats collegeId) = some 16 := by decide +kernel
  obtain ⟨s, hrun, hseats⟩ := Option.map_eq_some_iff.mp heval
  have hinit : T.Reachable ⟨almostFull, []⟩ := .init ⟨almostFull_within, rfl⟩
  refine ⟨s, hinit.run hrun, ?_⟩
  rw [hseats]
  decide

end Accounts
