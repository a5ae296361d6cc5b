/-
# Accounts, tokens and colleges

A visitor signs up with a new college, staff register or import accounts and reset passwords,
everyone logs in, and a token says who its bearer is.  The routes of these operations check
the token's role and trust what it says.

* `Store` : the accounts and colleges, and the tokens that were signed.
* `signup`, `login`, `resetUserPassword`, `getServiceUserId` beside `register` and
  `bulkRegister`, behind the middleware of their routes.
* `service` : these operations side by side, every request of which may be refused.
-/
import JudgePlatform.Api.Seats
import JudgePlatform.Library.Expansion

namespace Sessions

open Accounts (ObjectId User NewUser Failure Platform PublicUser toPublicUser Registration Row
  BulkResult trim)

/-! ## Documents -/

/-- What a token says of its bearer. -/
structure Claims where
  id : ObjectId
  role : String
  email : String
  name : String
  collegeId : Option ObjectId
  deriving DecidableEq

def claimsOf (user : User) : Claims where
  id := user.id
  role := user.role
  email := user.email
  name := user.name
  collegeId := user.collegeId

/-- The fields of a college that a sign-up sets. -/
structure Tenant where
  id : ObjectId
  name : String
  slug : String

structure Store where
  base : Accounts.Store
  tenants : List Tenant
  /-- the tokens signed with the secret, a history variable -/
  signed : List (String × Claims)

/-! ## Requests -/

inductive Request where
  | base (r : Accounts.Request)
  /-- `jwt.verify` -/
  | verify (token : String)
  /-- `bcrypt.compare` -/
  | compare (password : Option String) (hash : String)
  | findSlug (slug : String)
  | createCollege (name slug : String)
  | deleteCollege (id : ObjectId)
  | findUser (id : String)
  | updatePassword (id : String) (password : String)
  /-- the steps of `importDatabase` -/
  | importDatabase

def Reply : Request → Type
  | .base r => Accounts.Reply r
  | .verify _ => Claims
  | .compare _ _ => Bool
  | .findSlug _ => Option Tenant
  | .createCollege _ _ => ObjectId
  | .deleteCollege _ => Unit
  | .findUser _ => Option User
  | .updatePassword _ _ => Unit
  | .importDatabase => Unit

/-- What the environment decides: beside the choices of the accounts, whether a password
fits its hash and which users a restore leaves. -/
structure Choice extends Accounts.Choice where
  fits : Bool := false
  restored : List User := []

abbrev Task (α : Type) := Program Reply Failure α

abbrev ask (r : Request) : Task (Reply r) := Program.call r

/-- The token that an answer hands out. -/
def signedBy : (r : Accounts.Request) → Except Failure (Accounts.Reply r) → List (String × Claims)
  | .sign u, .ok (token : String) => [(token, claimsOf u)]
  | _, _ => []

variable (platform : Platform)

/-- The text of an identifier, as `toString` writes it. -/
structure IsId (id : ObjectId) : Prop where
  cast : platform.objectId id = some id
  trimmed : trim id = id
  ne_empty : id ≠ ""

instance (id : ObjectId) : Decidable (IsId platform id) :=
  decidable_of_iff (platform.objectId id = some id ∧ trim id = id ∧ id ≠ "")
    ⟨fun h => ⟨h.1, h.2.1, h.2.2⟩, fun h => ⟨h.cast, h.trimmed, h.ne_empty⟩⟩

namespace Store

def setPassword (s : Store) (id : ObjectId) (password : String) : Store :=
  { s with base := { s.base with
      users := s.base.users.map fun u => if u.id = id then { u with password } else u } }

/-- A new college is on the free plan. -/
def addCollege (s : Store) (id : ObjectId) (name slug : String) : Store :=
  { s with
    base := { s.base with colleges := s.base.colleges ++ [⟨id, some "free"⟩] }
    tenants := s.tenants ++ [⟨id, name, slug⟩] }

def removeCollege (s : Store) (id : ObjectId) : Store :=
  { s with
    base := { s.base with colleges := s.base.colleges.filter fun q => q.id ≠ id }
    tenants := s.tenants.filter fun t => t.id ≠ id }

end Store

/-- Serve a request that is not refused. -/
def answer (c : Choice) (s : Store) : (r : Request) → Except Failure (Reply r) × Store
  | .base r =>
    let answered := Accounts.serve platform.objectId c.toChoice s.base r
    (answered.1, { s with base := answered.2, signed := s.signed ++ signedBy r answered.1 })
  | .verify token =>
    match s.signed.find? fun x => x.1 = token with
    | some x => (.ok x.2, s)
    | none => (.error (.thrown "invalid signature"), s)
  | .compare password _ =>
    match password with
    | some _ => (.ok c.fits, s)
    | none => (.error (.thrown "Illegal arguments: undefined, string"), s)
  | .findSlug slug => (.ok (s.tenants.find? fun t => t.slug = slug), s)
  | .createCollege name slug =>
    if ¬IsId platform c.newId ∨ name = "" ∨ (s.base.college c.newId).isSome ∨
        s.tenants.any fun t => t.id = c.newId || t.slug = slug then
      (.error (.thrown "College validation failed"), s)
    else
      (.ok c.newId, s.addCollege c.newId name slug)
  | .deleteCollege id => (.ok (), s.removeCollege id)
  | .findUser id =>
    match platform.objectId id with
    | some id => (.ok (s.base.users.find? fun u => u.id = id), s)
    | none => (.error (.thrown "Cast to ObjectId failed"), s)
  | .updatePassword id password =>
    match platform.objectId id with
    | some id => (.ok (), s.setPassword id password)
    | none => (.error (.thrown "Cast to ObjectId failed"), s)
  | .importDatabase => (.ok (), { s with base := { s.base with users := c.restored } })

def serve (c : Choice) (s : Store) (r : Request) : Except Failure (Reply r) × Store :=
  match c.refused with
  | some message => (.error (.thrown message), s)
  | none => answer platform c s r

/-! ## The functions -/

def isSlugChar (c : Char) : Bool := c.isLower || c.isDigit

/-- `replace(/[^a-z0-9]+/g, "-")`; the flag tells whether the dash of a run is written. -/
def replaceRuns : Bool → List Char → List Char
  | _, [] => []
  | inRun, c :: cs =>
    if isSlugChar c then c :: replaceRuns false cs
    else if inRun then replaceRuns true cs
    else '-' :: replaceRuns true cs

/-- `replace(/^-+|-+$/g, "")` -/
def stripDashes (cs : List Char) : List Char :=
  ((cs.dropWhile (· = '-')).reverse.dropWhile (· = '-')).reverse

def slugify (name : String) : String :=
  let base := String.ofList (stripDashes
    (replaceRuns false (trim (platform.toLowerCase name)).toList))
  if base = "" then "college" else base

/-- The first of `slug`, `base-(suffix + 1)`, … that no college has; the search asks for
`tries` of them at most. -/
def findFreeSlug (base slug : String) (suffix : ℕ) : ℕ → Task String
  | 0 => throw (.thrown "still searching")
  | tries + 1 => do
    let taken : Option Tenant ← ask (.findSlug slug)
    match taken with
    | none => return slug
    | some _ =>
      findFreeSlug base (base ++ "-" ++ Text.itoa (suffix + 1)) (suffix + 1) tries

def uniqueSlug (tries : ℕ) (base : String) : Task String := findFreeSlug base base 1 tries

/-- The body of a sign-up. -/
structure Signup where
  collegeName : Option String
  name : Option String
  email : Option String
  password : Option String

/-- `authService.register` -/
def register (x : Registration) : Task (String × PublicUser) :=
  (Accounts.register platform x).expand fun r => ask (.base r)

def signup (tries : ℕ) (x : Signup) : Task (String × PublicUser) := do
  let collegeName := (x.collegeName.map trim).filter (· ≠ "")
  match collegeName with
  | none => throw (.http 400 "College name is required" "College name is required")
  | some collegeName =>
    if Accounts.isBlank x.name || Accounts.isBlank x.email || Accounts.isBlank x.password then
      throw (.http 400 "Name, email, and password are required"
        "Name, email, and password are required")
    let slug ← uniqueSlug tries (slugify platform (x.collegeName.getD ""))
    let college : ObjectId ← ask (.createCollege collegeName slug)
    tryCatch
      (register platform {
        name := x.name
        email := x.email
        password := x.password
        role := "admin"
        collegeId := college
        usn := none
        section_ := none })
      fun err => do
        ask (.deleteCollege college)
        throw err

def DUMMY_PASSWORD_HASH : String :=
  "$2b$10$SHhjQgShaXsISHR6GrxOo.wWzSWSHx.SZEgIfGUxxS1BupxLT17ci"

def login (email password : Option String) : Task (String × PublicUser) := do
  match email with
  | none => throw (.thrown "Cannot read properties of undefined (reading 'toLowerCase')")
  | some email =>
    let user : Option User ← ask (.base (.findEmail (platform.toLowerCase email)))
    let ok : Bool ← ask (.compare password ((user.map User.password).getD DUMMY_PASSWORD_HASH))
    match user.filter fun _ => ok with
    | none => throw (.http 401 "Invalid credentials" "Invalid credentials")
    | some user =>
      let token : String ← ask (.base (.sign user))
      return (token, toPublicUser user)

def resetUserPassword (userId newPassword : String) : Task Unit := do
  let user : Option User ← ask (.findUser userId)
  if user.isNone then throw (.http 404 "User not found" none)
  let hashed : String ← ask (.base (.hash newPassword))
  ask (.updatePassword userId hashed)

def SERVICE_ACCOUNT_EMAIL : String := "arventiq-service@system.internal"

/-- What `getOrCreateServiceUserId` runs once for each promise. -/
def getServiceUserId : Task ObjectId := do
  let existing : Option User ← ask (.base (.findEmail SERVICE_ACCOUNT_EMAIL))
  match existing with
  | some existing => return existing.id
  | none =>
    let placeholder : String ← ask (.base .randomPassword)
    let placeholderPassword : String ← ask (.base (.hash placeholder))
    let created : User ← ask (.base (.createUser {
      name := "Arventiq Service Account"
      email := SERVICE_ACCOUNT_EMAIL
      password := placeholderPassword
      role := "admin"
      usn := none
      section_ := none
      collegeId := none }))
    return created.id

/-! ## The routes -/

def verifyToken (token : Option String) : Task Claims :=
  match token with
  | none => throw (.http 401 "No token" none)
  | some token => tryCatch (ask (.verify token)) fun _ => throw (.http 401 "Invalid token" none)

/-- `verifyToken` and `authorizeRoles`. -/
def authorize (token : Option String) (roles : List String) : Task Claims := do
  let user ← verifyToken token
  if user.role ∉ roles then throw (.http 403 "Forbidden" none)
  return user

def staff : List String := ["admin", "superadmin", "faculty"]

inductive Operation where
  | register (token : Option String) (x : Registration)
  | signup (tries : ℕ) (x : Signup)
  | login (email password : Option String)
  | bulkImport (token : Option String) (users : List Row) (defaultPassword collegeId : Option String)
  | resetPassword (token : Option String) (userId : String) (newPassword : Option String)
  | serviceAccount
  | restore (token : Option String)

inductive Response where
  | session (token : String) (user : PublicUser)
  | imported (results : BulkResult)
  | reset
  | serviceUser (id : ObjectId)
  | restored

def bulkImport (token : Option String) (users : List Row)
    (defaultPassword collegeId : Option String) : Task BulkResult := do
  let user ← authorize token staff
  if users = [] then throw (.http 400 "Invalid or empty users list" none)
  if Accounts.isBlank defaultPassword then throw (.http 400 "Default password is required" none)
  (Accounts.bulkRegister platform users defaultPassword
    ((collegeId.filter (· ≠ "")).or user.collegeId)).expand fun r => ask (.base r)

def resetPassword (token : Option String) (userId : String) (newPassword : Option String) :
    Task Unit := do
  let _ ← authorize token staff
  match newPassword.filter (· ≠ "") with
  | none => throw (.http 400 "New password is required" none)
  | some newPassword => resetUserPassword userId newPassword

def Operation.program : Operation → Task Response
  | .register token x => do
    let _ ← authorize token ["superadmin"]
    (fun p => .session p.1 p.2) <$>
      Sessions.register platform { x with usn := none, section_ := none }
  | .signup tries x => (fun p => .session p.1 p.2) <$> Sessions.signup platform tries x
  | .login email password => (fun p => .session p.1 p.2) <$> Sessions.login platform email password
  | .bulkImport token users defaultPassword collegeId =>
    .imported <$> Sessions.bulkImport platform token users defaultPassword collegeId
  | .resetPassword token userId newPassword =>
    (fun _ => .reset) <$> Sessions.resetPassword token userId newPassword
  | .serviceAccount => .serviceUser <$> getServiceUserId
  | .restore token => do
    let _ ← authorize token ["superadmin"]
    ask .importDatabase
    return .restored

/-! ## What a call sees -/

/-- The claims of the caller's token, the college that the call has made, and the accounts that
it has found, with the address it asked for, or made. -/
structure Seen where
  caller : Option Claims := none
  college : Option ObjectId := none
  found : List (String × User) := []
  made : List User := []

def lookBase (v : Seen) : (r : Accounts.Request) → Accounts.Reply r → Seen
  | .findEmail email, (some u : Option User) => { v with found := v.found ++ [(email, u)] }
  | .createUser _, (u : User) => { v with made := v.made ++ [u] }
  | _, _ => v

def look (v : Seen) : (r : Request) → Reply r → Seen
  | .base r, x => lookBase v r x
  | .verify _, (cl : Claims) => { v with caller := some cl }
  | .createCollege _ _, (id : ObjectId) => { v with college := some id }
  | _, _ => v

def service : Service Operation Store Choice Seen Reply Failure Response where
  program := fun op => op.program platform
  serve := serve platform
  blank := {}
  look := look

abbrev Config := Service.Config Operation Store Seen Reply Failure Response

/-- The token that an operation presents. -/
def Operation.token : Operation → Option String
  | .register token _ => token
  | .bulkImport token _ _ _ => token
  | .resetPassword token _ _ => token
  | .restore token => token
  | _ => none

/-- The address that somebody logs in with. -/
def Operation.email : Operation → Option String
  | .login email _ => email
  | _ => none

/-- The interleavings of calls, from a store. -/
def system (store : Store) := (service platform).system fun s => s = store

end Sessions
