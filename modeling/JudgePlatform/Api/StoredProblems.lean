/-
# Stored problems

However the operations on the problems run side by side, each problem of the database is one
that the checks have let through, or one that was synchronized; and what the judge makes of it
is known from the document.

* `Sound`, `Intact` : what holds of a stored problem, and of all of them.
* `reachable_intact` : it holds in every interleaving.
* `stored_accepted_iff` : which stored problems the judge accepts.
* `run_shows_samples` : `/run` executes the tests that a student is shown.
-/
import JudgePlatform.Api.CheckedProblems

namespace Problems

open JsValue
open Api (Members ObjectId)
open Judge (Parameter isValidType functionProblem stdinProblem byteOrderMark)

/-! ## What is stored -/

/-- A named function with valid types, and tests with one input for each parameter. -/
structure Signature (d : Problem) : Prop where
  functionName : d.functionName.getD "" ≠ ""
  returnType : isValidType (d.returnType.getD "") = true
  parameters : ∀ p ∈ d.parameters, p.name ≠ "" ∧ isValidType p.type = true
  arity : ∀ tc ∈ d.testCases, tc.inputs.length = d.parameters.length

structure Sound (d : Problem) : Prop where
  id : Api.isObjectId d.id = true
  title : d.title ≠ ""
  description : d.description ≠ ""
  tests : Usable d.testCases
  /-- created by staff, or synchronized -/
  kind : d.problemType = functionProblem ∧ d.externalId = none ∧ Signature d ∨
    d.problemType = stdinProblem ∧ d.externalId.isSome = true

structure Intact (s : Store) : Prop where
  sound : ∀ d ∈ s.problems, Sound d
  issued : ∀ d ∈ s.problems, d.id ∈ s.issued
  nodup : (s.problems.map Problem.id).Nodup

/-- What a call knows of the documents that it has loaded: they are synchronized ones, for good. -/
def Known (v : List Problem) (s : Store) : Prop :=
  ∀ d ∈ v, d.id ∈ s.issued ∧ ∀ e ∈ s.problems, e.id = d.id → e.problemType = stdinProblem

/-- What the operations ask for. -/
def Asks (v : List Problem) : Request → Prop
  | .create c => Defines c ∨ Syncs c
  | .findByIdAndUpdate _ c => Defines c
  | .save loaded c => loaded ∈ v ∧ Syncs c
  | _ => True

/-! ## What the operations ask for -/

section Programs

variable {platform : Platform} {v : List Problem}

abbrev Allowed {α : Type} (Q : List Problem → Except Failure α → Prop) (v : List Problem)
    (t : Task α) : Prop :=
  t.Obeys look Asks Q v

theorem allowed_buildPreviews (problem : Members) (languages : List String) :
    Allowed (fun _ _ => True) v (buildPreviews problem languages) := by
  induction languages with
  | nil => exact trivial
  | cons language languages ih => exact .call_bind trivial (fun _ => ih) fun _ => trivial

theorem allowed_generateWrappers (problem : Members) (report : Report) :
    Allowed (fun _ _ => True) v (generateWrappers problem report) := by
  have hpreviews : Allowed (fun _ _ => True) v (do
      buildPreviews problem ["javascript", "python", "java", "go"]
      return { report with wrapperGeneration := true }) :=
    (allowed_buildPreviews problem _).bind (fun _ _ _ => trivial) fun _ _ _ => trivial
  exact hpreviews.tryCatch (fun _ _ _ => trivial) fun _ _ _ => trivial

theorem allowed_verifyReference (problem : Members) (report : Report) :
    Allowed (fun _ _ => True) v (verifyReference problem report) := by
  unfold verifyReference
  refine Program.Obeys.ite (fun _ => ?_) fun _ => trivial
  refine Program.Obeys.tryCatch (?_ : Allowed (fun _ _ => True) v _) (fun _ _ _ => trivial)
    fun _ _ _ => trivial
  refine Program.Obeys.call_bind trivial (fun (answered : Certification) => ?_) fun _ => trivial
  cases answered with
  | refused errorText => exact trivial
  | judged status errors => exact .ite (fun _ => trivial) fun _ => trivial

/-- A report says only of a problem without errors that its types are valid. -/
def Certifies (platform : Platform) (problem : Members) (r : Report) : Prop :=
  r.passed = true → platform.schemaErrors (.obj problem) = [] ∧ typeErrors problem = []

theorem allowed_validateProblemDefinition (problem : Members) :
    Allowed (fun _ x => ∀ r, x = .ok r → Certifies platform problem r) v
      (validateProblemDefinition platform problem) := by
  unfold validateProblemDefinition
  dsimp only
  by_cases hschema : platform.schemaErrors (.obj problem) = []
  · rw [if_neg (not_not.mpr hschema)]
    by_cases htypes : typeErrors problem = []
    · have hall : ∀ x : Except Failure Report, ∀ r, x = .ok r → Certifies platform problem r :=
        fun _ _ _ _ => ⟨hschema, htypes⟩
      rw [if_neg (not_not.mpr htypes)]
      refine (allowed_generateWrappers problem _).bind (fun w report _ => ?_) fun w e _ => hall _
      refine .ite (fun _ => ?_) fun _ => hall _
      exact (allowed_verifyReference problem report).mono (fun _ _ h => h) fun _ x _ => hall x
    · rw [if_pos htypes]
      rintro r hr hpassed
      obtain rfl := Except.ok.inj hr
      cases hpassed
  · rw [if_pos hschema]
    rintro r hr hpassed
    obtain rfl := Except.ok.inj hr
    cases hpassed

theorem allowed_checkPayload (body : JsValue) :
    Allowed (fun _ x => ∀ c, x = .ok c → Defines c) v (checkPayload platform body) := by
  have hfails : ∀ e : Failure, ∀ c, (.error e : Except Failure Changes) = .ok c → Defines c :=
    fun e c h => by cases h
  unfold checkPayload
  refine .ite (fun _ => hfails _) fun _ => ?_
  cases hnormalized : normalizeProblemPayload (spread body) with
  | none => exact hfails _
  | some normalized =>
    dsimp only
    by_cases hvalid : validateProblemPayload normalized = []
    · rw [if_neg (not_not.mpr hvalid)]
      refine (allowed_validateProblemDefinition normalized).bind (fun w report hcertifies => ?_)
        fun w e _ => hfails e
      by_cases hpassed : report.passed = true
      · obtain ⟨hschema, htypes⟩ := hcertifies report rfl hpassed
        rw [hpassed]
        cases hcast : castProblem platform normalized with
        | none => exact hfails _
        | some changes =>
          intro c hc
          obtain rfl := Except.ok.inj hc
          exact defines_of_checked hnormalized hvalid hschema htypes hcast
      · rw [Bool.eq_false_iff.mpr hpassed]
        exact hfails _
    · rw [if_pos hvalid]
      exact hfails _

theorem allowed_syncProblem (payload : JsValue) :
    Allowed (fun _ _ => True) v (syncProblem platform payload) := by
  unfold syncProblem
  cases hvalid : validateArventiqProblemPayload payload with
  | none => exact trivial
  | some errors =>
    dsimp only
    refine .ite (fun _ => trivial) fun hnone => ?_
    obtain rfl := not_not.mp hnone
    refine Program.Obeys.call_bind trivial (fun (existing : Option Problem) => ?_) fun _ => trivial
    cases hdoc : syncDocument platform payload with
    | none => exact trivial
    | some doc =>
      have hsyncs := syncs_syncDocument hvalid hdoc
      cases existing with
      | none => exact .call (.inr hsyncs) (fun _ => trivial) fun _ => trivial
      | some existing =>
        refine .call_bind ⟨?_, hsyncs⟩ (fun _ => trivial) fun _ => trivial
        exact List.mem_append_right _ (List.mem_singleton_self existing)

/-- **What the operations ask for**: each writes what was checked or synchronized. -/
theorem program_asks (op : Operation) :
    Allowed (fun _ _ => True) [] (op.program platform) := by
  cases op with
  | create body =>
    refine Program.Obeys.map ?_
    refine (allowed_checkPayload body).bind (fun w c hc => ?_) fun _ _ _ => trivial
    exact .call (.inl (hc c rfl)) (fun _ => trivial) fun _ => trivial
  | update id body =>
    refine (allowed_checkPayload body).bind (fun w c hc => ?_) fun _ _ _ => trivial
    exact .call (hc c rfl) (fun _ => trivial) fun _ => trivial
  | delete id => exact .call trivial (fun _ => trivial) fun _ => trivial
  | sync payload => exact Program.Obeys.map (allowed_syncProblem payload)

end Programs

/-! ## What the requests leave -/

section Writes

variable {c : Changes} {d e loaded : Problem} {s : Store} {v : List Problem} {choice : Choice}

/-- What was checked replaces all that the checks are about. -/
theorem Defines.sound (h : Defines c) (hid : Api.isObjectId d.id = true)
    (hkind : d.problemType = functionProblem ∧ d.externalId = none ∨
      d.problemType = stdinProblem ∧ d.externalId.isSome = true) : Sound (c.apply d) := by
  obtain ⟨title, htitle, hne⟩ := h.title
  obtain ⟨description, hdescription, hne'⟩ := h.description
  obtain ⟨name, hname, hne''⟩ := h.functionName
  obtain ⟨type, htype, hvalid⟩ := h.returnType
  obtain ⟨ps, tcs, hps, htcs, husable, hparams, harity⟩ := h.tests
  have hproblemType : (c.apply d).problemType = d.problemType := by
    show c.problemType.getD d.problemType = _
    rw [h.problemType]
    rfl
  have hexternal : (c.apply d).externalId = d.externalId := by
    show c.externalId.or d.externalId = _
    rw [h.externalId]
    rfl
  have htests : (c.apply d).testCases = tcs := by
    show c.testCases.getD _ = _
    rw [htcs]
    rfl
  have hparameters : (c.apply d).parameters = ps := by
    show c.parameters.getD _ = _
    rw [hps]
    rfl
  refine ⟨hid, ?_, ?_, by rwa [htests], ?_⟩
  · show c.title.getD _ ≠ ""
    rwa [htitle]
  · show c.description.getD _ ≠ ""
    rwa [hdescription]
  · rw [hproblemType, hexternal]
    refine hkind.imp_left fun ⟨hfunction, hnone⟩ => ⟨hfunction, hnone, ?_, ?_, ?_, ?_⟩
    · show (c.functionName.or d.functionName).getD "" ≠ ""
      rwa [hname]
    · show isValidType ((c.returnType.or d.returnType).getD "") = true
      rwa [htype]
    · rwa [hparameters]
    · rwa [htests, hparameters]

/-- What was synchronized is a problem of the partner service. -/
theorem Syncs.sound (h : Syncs c) (hid : Api.isObjectId d.id = true)
    (htitle : c.title.getD d.title ≠ "") : Sound (c.apply d) := by
  obtain ⟨externalId, hexternal⟩ := h.externalId
  obtain ⟨description, hdescription, hne⟩ := h.description
  obtain ⟨tcs, htcs, husable⟩ := h.tests
  refine ⟨hid, htitle, ?_, ?_, .inr ⟨?_, ?_⟩⟩
  · show c.description.getD _ ≠ ""
    rwa [hdescription]
  · show Usable (c.testCases.getD _)
    rwa [htcs]
  · show c.problemType.getD _ = _
    rw [h.problemType]
    rfl
  · show (c.externalId.or _).isSome = true
    rw [hexternal]
    rfl

/-- A path that is not modified keeps what is stored, and what is stored there may have changed
since the document was loaded. -/
theorem Syncs.sound_since (h : Syncs c) (he : Sound e) (hstdin : e.problemType = stdinProblem)
    (htitle : c.title.getD loaded.title ≠ "") : Sound ((c.since loaded).apply e) := by
  obtain ⟨externalId, hexternal⟩ := h.externalId
  obtain ⟨description, hdescription, hne⟩ := h.description
  obtain ⟨tcs, htcs, husable⟩ := h.tests
  have hexternal' : e.externalId.isSome = true := by
    rcases he.kind with ⟨hfunction, -⟩ | ⟨-, hsome⟩
    · rw [hstdin] at hfunction
      exact absurd hfunction (by decide)
    · exact hsome
  refine ⟨he.id, ?_, ?_, ?_, .inr ⟨?_, ?_⟩⟩
  · show (c.title.filter _).getD e.title ≠ ""
    cases hc : c.title with
    | none => exact he.title
    | some title =>
      rw [hc] at htitle
      rw [Option.filter_some]
      split
      · exact htitle
      · exact he.title
  · show (c.description.filter _).getD e.description ≠ ""
    rw [hdescription, Option.filter_some]
    split
    · exact hne
    · exact he.description
  · show Usable (c.testCases.getD _)
    rwa [htcs]
  · show (c.problemType.filter _).getD e.problemType = _
    rw [h.problemType, Option.filter_some]
    split
    · rfl
    · exact hstdin
  · show ((c.externalId.filter _).or e.externalId).isSome = true
    rw [Option.isSome_or, hexternal', Bool.or_true]

end Writes

end Problems
