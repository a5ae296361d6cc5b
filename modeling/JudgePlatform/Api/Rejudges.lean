/-
# Reads after a rejudge

A rejudge resets the stored submission but leaves the Redis entry that a read or the
judge has made of it.  `rejudge_fresh` says that a read which starts after the reset
shows only what was stored since, provided that at each reset there is no entry and
no call is about to write one.

The calls run side by side: reads, the three rejudges, the judge's writes, and the
end of an entry's time to live.
-/
import JudgePlatform.Api.Verdicts

namespace Api

open JsValue

/-! ## Operations -/

inductive SubmissionOperation where
  | getSubmissionById (id : ObjectId) (auth : Requester)
  | rejudgeSubmission (id : ObjectId)
  | rejudgeProblemSubmissions (problemId : ObjectId) (assessmentId : Option ObjectId)
  | rejudgeAssessmentSubmissions (assessmentId : ObjectId)
  | processAndStoreResults (v : Verdict)
  | markSubmissionExecutionFailed (id reason : String)
  | expire (key : String)

inductive SubmissionResponse where
  | read (x : SubmissionRead)
  | done

def SubmissionOperation.program (bson : GoValue → JsValue) :
    SubmissionOperation → Task SubmissionResponse
  | .getSubmissionById id auth => SubmissionResponse.read <$> Api.getSubmissionById id auth
  | .rejudgeSubmission id => (fun _ => .done) <$> Api.rejudgeSubmission id
  | .rejudgeProblemSubmissions problemId assessmentId =>
    (fun _ => .done) <$> Api.rejudgeProblemSubmissions problemId assessmentId
  | .rejudgeAssessmentSubmissions assessmentId =>
    (fun _ => .done) <$> Api.rejudgeAssessmentSubmissions assessmentId
  | .processAndStoreResults v => (fun _ => .done) <$> storeVerdict bson v
  | .markSubmissionExecutionFailed id reason =>
    (fun _ => .done) <$> Api.markSubmissionExecutionFailed id reason
  | .expire key => (fun _ => .done) <$> ask (.expireCache key)

/-- What a call has seen: the entry that it was given under a key, the submission that
it found, and the same when it was found by the last request. -/
structure SourceView where
  entry : Option (String × String) := none
  doc : Option (ObjectId × Submission) := none
  last : Option (ObjectId × Submission) := none

def SourceView.look (v : SourceView) : (r : Request) → Reply r → SourceView
  | .getCache k, (raw : Option String) =>
    { v with entry := (raw.map fun text => (k, text)).or v.entry, last := none }
  | .findSubmission id, (found : Option Submission) =>
    { v with
      doc := (found.map fun d => (id, d)).or v.doc
      last := found.map fun d => (id, d) }
  | _, _ => { v with last := none }

def submissionService (bson : GoValue → JsValue) :
    Service SubmissionOperation Store Choice SourceView Reply ServiceError SubmissionResponse where
  program := SubmissionOperation.program bson
  serve := serve
  blank := {}
  look := SourceView.look

abbrev SubmissionCall :=
  Service.Call SubmissionOperation SourceView Reply ServiceError SubmissionResponse

abbrev SubmissionConfig :=
  Service.Config SubmissionOperation Store SourceView Reply ServiceError SubmissionResponse

abbrev SubmissionAction := Service.Action SubmissionOperation Choice

def submissionSystem (bson : GoValue → JsValue) (Init : Store → Prop) :=
  (submissionService bson).system Init

/-! ## What a call writes and returns -/

/-- The text that the API caches for a submission. -/
def Submission.entryText (d : Submission) : String := stringify (obj d.toObject)

/-- The entries that an operation writes: a read what it found by its last request, the
judge its verdict. -/
def WritesEntry (v : SourceView) (k text : String) : SubmissionOperation → Prop
  | .getSubmissionById _ _ =>
    ∃ i d, v.last = some (i, d) ∧ k = cacheKey i ∧ text = d.entryText
  | .processAndStoreResults w =>
    k = cacheKey w.submissionId ∧ ∃ userId j, w.entry userId = .ok j ∧ text = goText j
  | _ => False

/-- What every request of a call satisfies. -/
def Caches (op : SubmissionOperation) (v : SourceView) (r : Request) : Prop :=
  ∀ k text, r = .setCache k text → WritesEntry v k text op

/-- The properties that a call has read of a submission. -/
def FromSource (id : ObjectId) (v : SourceView) (f : Properties) : Prop :=
  (∃ text x, v.entry = some (cacheKey id, text) ∧ JsValue.parse text = some x ∧
    f = propertiesOf x) ∨
  ∃ d, v.doc = some (id, d) ∧ f = d.properties

/-- What is shown of properties: themselves, or what a student may see of them. -/
def Shows (f g : Properties) : Prop :=
  g = f ∨ ∃ problem, sanitizeSubmissionForStudent f problem = some g

/-- A read returns what it has read. -/
def Returns (op : SubmissionOperation) (v : SourceView)
    (x : Except ServiceError SubmissionResponse) : Prop :=
  ∀ id auth b g, op = .getSubmissionById id auth → x = .ok (.read (.found b g)) →
    ∃ f, FromSource id v f ∧ Shows f g

section Programs

variable {P : SourceView → Request → Prop} {v : SourceView}

theorem getCacheJSON_obeys (key : String) (hP : P {} (.getCache key)) :
    (getCacheJSON key).Obeys SourceView.look P
      (fun w x => ∀ c, x = .ok (some c) → ∃ text, w.entry = some (key, text) ∧
        JsValue.parse text = some c) {} := by
  refine Program.Obeys.call_bind hP (fun raw => ?_) fun _ _ h => nomatch h
  cases raw with
  | none => exact fun _ h => nomatch h
  | some text =>
    dsimp only
    split
    · exact fun _ h => nomatch h
    · cases hparse : JsValue.parse text with
      | none => exact fun _ h => nomatch h
      | some x =>
        intro c hc
        cases hc
        exact ⟨text, rfl, hparse⟩

theorem showSubmission_obeys {id : ObjectId} {b : Bool} {f : Properties} {auth : Requester}
    (hf : FromSource id v f) (hP : ∀ i, P v (.findProblem i)) :
    (showSubmission b f auth).Obeys SourceView.look P
      (fun w x => ∀ b g, x = .ok (.found b g) → ∃ f, FromSource id w f ∧ Shows f g) v := by
  have hshow : ∀ (w : SourceView) (problem : Option Problem), FromSource id w f →
      Program.Obeys SourceView.look P
        (fun w x => ∀ b g, x = .ok (.found b g) → ∃ f, FromSource id w f ∧ Shows f g) w
        (demand (sanitizeSubmissionForStudent f problem) .typeError >>= fun shown =>
          (pure (.found b shown) : Task SubmissionRead)) := by
    intro w problem hw
    cases hg : sanitizeSubmissionForStudent f problem with
    | none => exact fun _ _ h => nomatch h
    | some g =>
      intro b' g' h
      cases h
      exact ⟨f, hw, .inr ⟨problem, hg⟩⟩
  unfold showSubmission
  split
  · intro b' g h
    cases h
    exact ⟨f, hf, .inl rfl⟩
  · cases f "problemId" with
    | none => exact hshow v none hf
    | some x =>
      cases x with
      | str i =>
        exact Program.Obeys.call_bind (hP i) (fun problem => hshow _ problem hf)
          fun _ _ _ h => nomatch h
      | _ => exact hshow v none hf

end Programs

/-- What the judge asks about a verdict, but for its entry. -/
def Request.isVerdict : Request → Bool
  | .storeResult _ _ _ _ => true
  | .storeFailure _ _ => true
  | .countVerdict _ _ => true
  | .findSubmission _ => true
  | .recordUsage _ => true
  | _ => false

theorem Request.isPlain_of_isVerdict {r : Request} (h : r.isVerdict = true) :
    r.isPlain = true := by
  cases r with
  | updateAttempt id u => cases h
  | createSubmission d => cases h
  | setCache k text => cases h
  | _ => rfl

section Writes

variable {P : SourceView → Request → Prop} {v : SourceView}

theorem getSubmissionById_obeys (id : ObjectId) (auth : Requester)
    (hread : ∀ v r, r.isPlain = true → P v r)
    (hwrite : ∀ v k text, WritesEntry v k text (.getSubmissionById id auth) →
      P v (.setCache k text)) :
    (getSubmissionById id auth).Obeys SourceView.look P
      (fun w x => ∀ b g, x = .ok (.found b g) → ∃ f, FromSource id w f ∧ Shows f g) {} := by
  refine Program.Obeys.bind (getCacheJSON_obeys _ (hread _ _ rfl)) (fun w cached hw => ?_)
    fun _ _ _ _ _ h => nomatch h
  cases hfilter : cached.filter fun v => truthy (some v) with
  | some x =>
    obtain ⟨text, hentry, hparse⟩ := hw x (by rw [(Option.filter_eq_some_iff.mp hfilter).1])
    unfold readThrough
    dsimp only
    split
    · exact showSubmission_obeys (.inl ⟨text, x, hentry, hparse, rfl⟩)
        fun i => hread _ _ rfl
    · exact fun _ _ h => nomatch h
  | none =>
    refine Program.Obeys.call_bind (hread _ _ rfl) (fun found => ?_) fun _ _ _ h => nomatch h
    cases found with
    | none => exact fun _ _ h => nomatch h
    | some d =>
      have hdoc : FromSource id (w.look (.findSubmission id) (some d)) d.properties :=
        .inr ⟨d, rfl, rfl⟩
      dsimp only
      split
      · split
        · exact Program.Obeys.call_bind (hwrite _ _ _ ⟨id, d, rfl, rfl, rfl⟩)
            (fun _ => showSubmission_obeys hdoc fun i => hread _ _ rfl) fun _ _ _ h => nomatch h
        · exact showSubmission_obeys hdoc fun i => hread _ _ rfl
      · exact fun _ _ h => nomatch h

theorem logged_obeys {r : Request} (hr : P v r) :
    (logged (ask r)).Obeys SourceView.look P (fun _ _ => True) v :=
  Program.Obeys.tryCatch
    (Program.Obeys.map (R := fun _ _ => True)
      (Program.Obeys.call hr (fun _ => trivial) fun _ => trivial))
    (fun _ _ _ => trivial) fun _ _ _ => trivial

theorem publishVerdict_obeys (w : Verdict) (hread : ∀ v r, r.isVerdict = true → P v r)
    (hwrite : ∀ v userId j, w.entry userId = .ok j →
      P v (.setCache (cacheKey w.submissionId) (goText j))) :
    (publishVerdict w).Obeys SourceView.look P (fun _ _ => True) v := by
  -- the last part, up to what is made of the entry
  have hrest : ∀ v (k : Option (Option Submission) → Task Unit),
      (∀ v original, Program.Obeys SourceView.look P (fun _ _ => True) v (k original)) →
      Program.Obeys SourceView.look P (fun _ _ => True) v (do
        let original : Option (Option Submission) ← logged (ask (.findSubmission w.submissionId))
        let _ ← logged (ask (.recordUsage (w.usageEvent (original.join.map Submission.userId))))
        k original) := by
    intro v k hk
    refine Program.Obeys.bind (logged_obeys (hread _ _ rfl)) (fun _ original _ => ?_)
      fun _ _ _ => trivial
    exact Program.Obeys.bind (logged_obeys (hread _ _ rfl)) (fun _ _ _ => hk _ original)
      fun _ _ _ => trivial
  unfold publishVerdict
  refine Program.Obeys.ite (fun _ => Program.Obeys.bind (logged_obeys (hread _ _ rfl))
    (fun _ _ _ => hrest _ _ ?_) fun _ _ _ => trivial) fun _ => hrest _ _ ?_
  all_goals
    intro v original
    cases hentry : w.entry ((original.join.map Submission.userId).getD nilObjectId) with
    | error e => exact trivial
    | ok j =>
      exact Program.Obeys.bind (logged_obeys (hwrite _ _ j hentry)) (fun _ _ _ => trivial)
        fun _ _ _ => trivial

theorem storeVerdict_obeys (bson : GoValue → JsValue) (w : Verdict)
    (hread : ∀ v r, r.isVerdict = true → P v r)
    (hwrite : ∀ v userId j, w.entry userId = .ok j →
      P v (.setCache (cacheKey w.submissionId) (goText j))) :
    (storeVerdict bson w).Obeys SourceView.look P (fun _ _ => True) v := by
  unfold storeVerdict
  split
  · exact Program.Obeys.bind (logged_obeys (hread _ _ rfl))
      (fun _ _ _ => publishVerdict_obeys w hread hwrite) fun _ _ _ => trivial
  · exact trivial

theorem markSubmissionExecutionFailed_obeys (id reason : String)
    (hread : ∀ v r, r.isVerdict = true → P v r) :
    (Api.markSubmissionExecutionFailed id reason).Obeys SourceView.look P (fun _ _ => True) v := by
  unfold Api.markSubmissionExecutionFailed
  split
  · exact Program.Obeys.bind (logged_obeys (hread _ _ rfl)) (fun _ _ _ => trivial)
      fun _ _ _ => trivial
  · exact trivial

theorem requeue_obeys (problem : Problem) (d : Submission)
    (hread : ∀ v r, r.isPlain = true → P v r) :
    (requeue problem d).Obeys SourceView.look P (fun _ _ => True) v :=
  Program.Obeys.call_bind (hread _ _ rfl)
    (fun _ => Program.Obeys.call (hread _ _ rfl) (fun _ => trivial) fun _ => trivial)
    fun _ => trivial

theorem requeueAll_obeys (problem : Problem) (ds : List Submission)
    (hread : ∀ v r, r.isPlain = true → P v r) :
    (requeueAll problem ds).Obeys SourceView.look P (fun _ _ => True) v := by
  induction ds generalizing v with
  | nil => exact trivial
  | cons d ds ih =>
    exact Program.Obeys.bind (requeue_obeys problem d hread) (fun _ _ _ => ih) fun _ _ _ => trivial

theorem requeueFound_obeys (cache : List (ObjectId × Option Problem)) (ds : List Submission)
    (hread : ∀ v r, r.isPlain = true → P v r) :
    (requeueFound cache ds).Obeys SourceView.look P (fun _ _ => True) v := by
  induction ds generalizing v cache with
  | nil => exact trivial
  | cons d ds ih =>
    have hfound : ∀ (w : SourceView) (p : Problem) (cache : List (ObjectId × Option Problem)),
        Program.Obeys SourceView.look P (fun _ _ => True) w (do
          requeue p d
          requeueFound cache ds) := fun w p cache =>
      Program.Obeys.bind (requeue_obeys p d hread) (fun _ _ _ => ih cache) fun _ _ _ => trivial
    unfold requeueFound
    cases cache.find? fun e => e.1 = d.problemId with
    | some e =>
      obtain ⟨i, problem⟩ := e
      cases problem with
      | none => exact ih _
      | some p => exact hfound v p _
    | none =>
      refine ⟨hread _ _ rfl, fun (problem : Option Problem) => ?_, fun _ => trivial⟩
      cases problem with
      | none => exact ih _
      | some p => exact hfound _ p _

/-- The requests of an operation are plain, but for its entries. -/
theorem SubmissionOperation.obeys (bson : GoValue → JsValue) (op : SubmissionOperation)
    (hread : ∀ v r, r.isPlain = true → P v r)
    (hwrite : ∀ v k text, WritesEntry v k text op → P v (.setCache k text)) :
    (op.program bson).Obeys SourceView.look P (Returns op) {} := by
  -- the operations that return no submission
  have hother : ∀ {α : Type} {t : Task α},
      op.program bson = (fun _ => SubmissionResponse.done) <$> t →
      (∀ id auth, op ≠ .getSubmissionById id auth) →
      t.Obeys SourceView.look P (fun _ _ => True) {} →
      (op.program bson).Obeys SourceView.look P (Returns op) {} := by
    intro α t hprogram hop ht
    rw [hprogram]
    exact Program.Obeys.map (ht.mono (fun _ _ h => h) fun _ _ _ id auth _ _ h => absurd h (hop id auth))
  cases op with
  | getSubmissionById id auth =>
    refine Program.Obeys.map (Program.Obeys.mono
      (getSubmissionById_obeys id auth hread hwrite)
      (fun _ _ h => h) fun w x hx id' auth' b g hop h => ?_)
    cases hop
    cases x with
    | error e => cases h
    | ok y =>
      cases h
      exact hx b g rfl
  | processAndStoreResults w =>
    refine hother rfl (fun _ _ h => nomatch h) ?_
    exact storeVerdict_obeys bson w (fun v r hr => hread v r (Request.isPlain_of_isVerdict hr))
      fun v userId j hj => hwrite _ _ _ ⟨rfl, userId, j, hj, rfl⟩
  | rejudgeSubmission id =>
    refine hother rfl (fun _ _ h => nomatch h) ?_
    refine Program.Obeys.call_bind (hread _ _ rfl) (fun found => ?_) fun _ => trivial
    cases found with
    | none => exact trivial
    | some d =>
      refine Program.Obeys.call_bind (hread _ _ rfl) (fun problem => ?_) fun _ => trivial
      cases problem with
      | none => exact trivial
      | some problem =>
        refine Program.Obeys.call_bind (hread _ _ rfl) (fun _ => ?_) fun _ => trivial
        dsimp only
        unfold require
        split
        · exact Program.Obeys.call (hread _ _ rfl) (fun _ => trivial) fun _ => trivial
        · exact trivial
  | rejudgeProblemSubmissions problemId assessmentId =>
    refine hother rfl (fun _ _ h => nomatch h) ?_
    refine Program.Obeys.call_bind (hread _ _ rfl) (fun problem => ?_) fun _ => trivial
    cases problem with
    | none => exact trivial
    | some problem =>
      refine Program.Obeys.call_bind (hread _ _ rfl) (fun ds => ?_) fun _ => trivial
      exact Program.Obeys.bind (requeueAll_obeys problem ds hread) (fun _ _ _ => trivial)
        fun _ _ _ => trivial
  | rejudgeAssessmentSubmissions assessmentId =>
    refine hother rfl (fun _ _ h => nomatch h) ?_
    refine Program.Obeys.call_bind (hread _ _ rfl) (fun assessment => ?_) fun _ => trivial
    cases assessment with
    | none => exact trivial
    | some assessment =>
      refine Program.Obeys.call_bind (hread _ _ rfl) (fun ds => ?_) fun _ => trivial
      exact Program.Obeys.bind (requeueFound_obeys [] ds hread) (fun _ _ _ => trivial)
        fun _ _ _ => trivial
  | markSubmissionExecutionFailed id reason =>
    refine hother rfl (fun _ _ h => nomatch h) ?_
    exact markSubmissionExecutionFailed_obeys id reason
      fun v r hr => hread v r (Request.isPlain_of_isVerdict hr)
  | expire key =>
    exact hother rfl (fun _ _ h => nomatch h)
      (Program.Obeys.call (hread _ _ rfl) (fun _ => trivial) fun _ => trivial)

end Writes

/-- **Every operation keeps to its entries.** -/
theorem submission_obeys (bson : GoValue → JsValue) (op : SubmissionOperation) :
    ((submissionService bson).program op).Obeys (submissionService bson).look (Caches op)
      (Returns op) (submissionService bson).blank := by
  refine op.obeys bson (fun v r hr k text h => ?_) fun v k text hwrites k' text' h => ?_
  · rw [h] at hr
    cases hr
  · cases h
    exact hwrites

/-! ## What was stored since a reset -/

/-- The judge's update of the submission. -/
def Request.isUpdate : Request → Bool
  | .storeResult _ _ _ _ => true
  | _ => false

/-- A judge that has not made its update yet. -/
def Unstored (w : Verdict) (c : SubmissionCall) : Prop :=
  c.op = .processAndStoreResults w ∧ ∃ r, c.rest.pending = some r ∧ r.isUpdate = true

section Since

variable (l : List SubmissionConfig) (id : ObjectId)

/-- The submission was as in `d` in one of the states of `l`. -/
def StoredIn (d : Submission) : Prop := ∃ s ∈ l, s.store.submission id = some d

/-- The judge has made its update in one of the steps from the states of `l`. -/
def JudgedIn (w : Verdict) : Prop :=
  w.submissionId = id ∧ ∃ s ∈ l, ∃ c ∈ s.calls, Unstored w c

/-- The entries made of what was stored in the states of `l`. -/
def EntrySince (text : String) : Prop :=
  (∃ d, StoredIn l id d ∧ text = d.entryText) ∨
  ∃ w userId j, JudgedIn l id w ∧ w.entry userId = .ok j ∧ text = goText j

/-- The properties of what was stored in the states of `l`: of the document, or of the
entry that the API or the judge has made of it. -/
inductive PropertiesSince : Properties → Prop
  | stored {d : Submission} (h : StoredIn l id d) : PropertiesSince d.properties
  | cached {d : Submission} (h : StoredIn l id d) :
    PropertiesSince (propertiesOf (reread (obj d.toObject)))
  | judged {w : Verdict} {userId : ObjectId} {j : Json} (h : JudgedIn l id w)
    (hj : w.entry userId = .ok j) : PropertiesSince (propertiesOf (ofJson j))

end Since

section SinceLemmas

variable {l l' : List SubmissionConfig} {id : ObjectId} {text : String}

theorem StoredIn.mono (hl : ∀ s ∈ l, s ∈ l') {d : Submission} (h : StoredIn l id d) :
    StoredIn l' id d := by
  obtain ⟨s, hs, hd⟩ := h
  exact ⟨s, hl s hs, hd⟩

theorem JudgedIn.mono (hl : ∀ s ∈ l, s ∈ l') {w : Verdict} (h : JudgedIn l id w) :
    JudgedIn l' id w := by
  obtain ⟨hid, s, hs, hc⟩ := h
  exact ⟨hid, s, hl s hs, hc⟩

theorem EntrySince.mono (hl : ∀ s ∈ l, s ∈ l') (h : EntrySince l id text) :
    EntrySince l' id text := by
  rcases h with ⟨d, hd, htext⟩ | ⟨w, userId, j, hw, hj, htext⟩
  · exact .inl ⟨d, hd.mono hl, htext⟩
  · exact .inr ⟨w, userId, j, hw.mono hl, hj, htext⟩

/-- An entry reads as the properties of what it was made of. -/
theorem EntrySince.properties (h : EntrySince l id text) {x : JsValue}
    (hparse : JsValue.parse text = some x) : PropertiesSince l id (propertiesOf x) := by
  rcases h with ⟨d, hd, rfl⟩ | ⟨w, userId, j, hw, hj, rfl⟩
  · unfold Submission.entryText at hparse
    rw [parse_stringify] at hparse
    obtain rfl := Option.some.inj hparse
    exact .cached hd
  · unfold JsValue.parse goText at hparse
    rw [Json.parse_print] at hparse
    obtain rfl := Option.some.inj hparse
    exact .judged hw hj

end SinceLemmas

theorem cacheKey_injective {i id : ObjectId} (h : cacheKey i = cacheKey id) : i = id := by
  have hlist := congrArg String.toList h
  unfold cacheKey at hlist
  rw [String.toList_append, String.toList_append, List.append_cancel_left_eq] at hlist
  exact String.toList_inj.mp hlist

/-! ## The condition on resets -/

/-- A call that is about to write an entry for the submission from what it knows: a read
that has found it, or a judge that has made its update. -/
def WritesBack (id : ObjectId) (c : SubmissionCall) : Prop :=
  match c.op with
  | .getSubmissionById _ _ => ∃ text, c.rest.pending = some (.setCache (cacheKey id) text)
  | .processAndStoreResults w =>
    w.submissionId = id ∧ ∃ r, c.rest.pending = some r ∧ r.isUpdate = false
  | _ => False

/-- The step performs the reset of the submission. -/
def Resets (id : ObjectId) (s : SubmissionConfig) (a : SubmissionAction) : Prop :=
  ∃ i c op v next, a = .serve i c ∧ s.calls[i]? = some ⟨op, v, .ask (.resetSubmission id) next⟩ ∧
    c.refused = false

/-- A submission is reset only while Redis has no entry of it and no call is about to
write one. -/
def ResetsUncached (s : SubmissionConfig) (a : SubmissionAction) : Prop :=
  ∀ id, Resets id s a → s.store.cached (cacheKey id) = none ∧ ∀ c ∈ s.calls, ¬ WritesBack id c

/-- What holds in every state after a reset, `l` being the states since and `n` the
number of calls that had started. -/
structure Fresh (id : ObjectId) (n : ℕ) (l : List SubmissionConfig) (s : SubmissionConfig) :
    Prop where
  entry : ∀ text, s.store.cached (cacheKey id) = some text → EntrySince l id text
  fill : ∀ c ∈ s.calls, ∀ i auth text, c.op = .getSubmissionById i auth →
    c.rest.pending = some (.setCache (cacheKey id) text) → EntrySince l id text
  judged : ∀ c ∈ s.calls, ∀ w r, c.op = .processAndStoreResults w → w.submissionId = id →
    c.rest.pending = some r → r.isUpdate = true ∨ JudgedIn l id w
  /-- what the calls that started later have seen -/
  seen : ∀ m c, n ≤ m → s.calls[m]? = some c →
    (∀ text, c.view.entry = some (cacheKey id, text) → EntrySince l id text) ∧
    ∀ d, c.view.doc = some (id, d) → StoredIn l id d

section Steps

variable {bson : GoValue → JsValue} {id : ObjectId} {n : ℕ}

theorem findProblemOf_strict (v : Option JsValue) : (findProblemOf v).Strict := by
  cases v with
  | none => exact trivial
  | some x => cases x <;> first | exact trivial | exact Program.Strict.call _

theorem demand_strict {α : Type} (x : Option α) (e : ServiceError) :
    (demand x e : Task α).Strict := by
  cases x <;> exact trivial

theorem showSubmission_strict (b : Bool) (f : Properties) (auth : Requester) :
    (showSubmission b f auth).Strict := by
  unfold showSubmission
  split
  · exact trivial
  · exact (findProblemOf_strict _).bind fun _ => (demand_strict _ _).bind fun _ => trivial

/-- A read handles no error. -/
theorem getSubmissionById_strict (id : ObjectId) (auth : Requester) :
    (getSubmissionById id auth).Strict := by
  refine Program.Strict.bind (Program.Strict.bind (Program.Strict.call _) fun raw => ?_)
    fun cached => ?_
  · split
    · exact trivial
    · split
      · exact trivial
      · exact demand_strict _ _
  · unfold readThrough
    split
    · split
      · exact showSubmission_strict _ _ _
      · exact trivial
    · refine Program.Strict.bind (Program.Strict.call _) fun found => ?_
      split
      · exact trivial
      · split
        · split
          · exact (Program.Strict.call _).bind fun _ => showSubmission_strict _ _ _
          · exact showSubmission_strict _ _ _
        · exact trivial

theorem reachable_strict {Init : Store → Prop} {C : SubmissionConfig → SubmissionAction → Prop}
    {s : SubmissionConfig} (hs : ((submissionSystem bson Init)).ReachableVia C s) :
    ∀ c ∈ s.calls, ∀ i auth, c.op = .getSubmissionById i auth → c.rest.Strict := by
  refine Service.reachable_calls
    (K := fun op _ p => ∀ i auth, op = .getSubmissionById i auth → p.Strict) ?_ ?_ hs
  · rintro _ i auth rfl
    exact (getSubmissionById_strict i auth).map
  · intro op v r next x h i auth hop
    exact (h i auth hop).next x

/-- What a call has just found is what the store has. -/
theorem last_look {c : Choice} {st : Store} {v : SourceView} {r : Request} {x : Reply r}
    {i : ObjectId} {d : Submission} (hx : (serve c st r).1 = .ok x)
    (h : (v.look r x).last = some (i, d)) : st.submission i = some d := by
  cases r with
  | findSubmission id =>
    have hfound : (serve c st (.findSubmission id)).1 = .ok (st.submission id) := by
      unfold serve at hx ⊢
      split at hx
      · cases hx
      · rw [if_neg (by assumption)]
        rfl
    rw [hfound] at hx
    obtain rfl := Except.ok.inj hx
    obtain ⟨e, he, heq⟩ := Option.map_eq_some_iff.mp h
    obtain ⟨rfl, rfl⟩ := Prod.mk.inj heq
    exact he
  | _ => cases h

/-- What a call has found is what it had found before, or what the store has. -/
theorem doc_look {c : Choice} {st : Store} {v : SourceView} {r : Request} {x : Reply r}
    {i : ObjectId} {d : Submission} (hx : (serve c st r).1 = .ok x)
    (h : (v.look r x).doc = some (i, d)) : v.doc = some (i, d) ∨ st.submission i = some d := by
  cases r with
  | findSubmission id =>
    cases hfound : (x : Option Submission) with
    | none =>
      have hdoc : ((Option.map (fun d => (id, d)) (x : Option Submission)).or v.doc) = some (i, d) := h
      rw [hfound] at hdoc
      exact .inl hdoc
    | some e =>
      have hdoc : ((Option.map (fun d => (id, d)) (x : Option Submission)).or v.doc) = some (i, d) := h
      rw [hfound] at hdoc
      refine .inr (last_look (v := v) hx ?_)
      show Option.map (fun d => (id, d)) (x : Option Submission) = some (i, d)
      rw [hfound]
      exact hdoc
  | _ => exact .inl h

/-- What a call was given as an entry is what it was given before, or the entry there. -/
theorem entry_look {c : Choice} {st : Store} {v : SourceView} {r : Request} {x : Reply r}
    {k text : String} (hx : (serve c st r).1 = .ok x)
    (h : (v.look r x).entry = some (k, text)) :
    v.entry = some (k, text) ∨ st.cached k = some text := by
  cases r with
  | getCache key =>
    have hcached : (serve c st (.getCache key)).1 = .ok (st.cached key) := by
      unfold serve at hx ⊢
      split at hx
      · cases hx
      · rw [if_neg (by assumption)]
        rfl
    rw [hcached] at hx
    obtain rfl := Except.ok.inj hx
    have hentry : ((st.cached key).map fun text => (key, text)).or v.entry = some (k, text) := h
    cases hkey : st.cached key with
    | none =>
      rw [hkey] at hentry
      exact .inl hentry
    | some t =>
      rw [hkey] at hentry
      obtain ⟨rfl, rfl⟩ := Prod.mk.inj (Option.some.inj hentry)
      exact .inr hkey
  | _ => exact .inl h

/-- A judge starts with its update. -/
theorem pending_storeVerdict (w : Verdict) {r : Request}
    (h : ((submissionService bson).begin (.processAndStoreResults w)).rest.pending = some r) :
    r.isUpdate = true := by
  have hprogram : ((submissionService bson).begin (.processAndStoreResults w)).rest =
      (fun _ => SubmissionResponse.done) <$> storeVerdict bson w := rfl
  rw [hprogram] at h
  unfold storeVerdict at h
  split_ifs at h
  · cases h
    rfl
  · cases h

theorem pending_getSubmissionById (i : ObjectId) (auth : Requester) :
    ((submissionService bson).begin (.getSubmissionById i auth)).rest.pending =
      some (.getCache (cacheKey i)) := rfl

variable {Init : Store → Prop} {C : SubmissionConfig → SubmissionAction → Prop}
  {s s' : SubmissionConfig} {a : SubmissionAction} {l : List SubmissionConfig}

theorem pending_caches (hs : (submissionSystem bson Init).ReachableVia C s) {c : SubmissionCall}
    (hc : c ∈ s.calls) {r : Request} (hr : c.rest.pending = some r) : Caches c.op c.view r := by
  have hobeys := Service.reachable_callsObey (submission_obeys bson) hs c hc
  cases hrest : c.rest with
  | ask r' next =>
    rw [hrest] at hr hobeys
    obtain rfl := Option.some.inj hr
    exact hobeys.1
  | _ =>
    rw [hrest] at hr
    cases hr

theorem submission_reset {i : ℕ} {c : Choice} {op : SubmissionOperation} {v : SourceView}
    {next : Except ServiceError (Reply (.resetSubmission id)) → Task SubmissionResponse}
    (hi : s.calls[i]? = some ⟨op, v, .ask (.resetSubmission id) next⟩) (hrefused : c.refused = false)
    (h : (submissionService bson).step s (.serve i c) = some s') :
    s'.store.submission id = (s.store.submission id).map Submission.reset := by
  simp only [Service.step, hi, Option.some.injEq] at h
  rw [← h]
  have hserve : serve c s.store (.resetSubmission id) =
      (.ok (), s.store.updateSubmission id Submission.reset) := by
    unfold serve
    rw [hrefused]
    rfl
  show (serve c s.store (.resetSubmission id)).2.submission id = _
  rw [hserve]
  show findDoc Submission.id (updateDoc Submission.id s.store.submissions id Submission.reset) id = _
  rw [findDoc_updateDoc Submission.id (f := Submission.reset) fun _ => rfl, if_pos rfl]
  rfl

/-- The reset makes the reads fresh. -/
theorem fresh_reset (hs : (submissionSystem bson Init).ReachableVia C s) (hreset : Resets id s a)
    (hC : ResetsUncached s a) (h : (submissionService bson).step s a = some s') :
    Fresh id s.calls.length [s'] s' := by
  obtain ⟨hcached, hnone⟩ := hC id hreset
  obtain ⟨i, c, op, v, next, rfl, hi, hrefused⟩ := hreset
  have hmem := List.mem_of_getElem? hi
  have hserve : serve c s.store (.resetSubmission id) =
      (.ok (), s.store.updateSubmission id Submission.reset) := by
    unfold serve
    rw [hrefused]
    rfl
  have hs' : s' = ⟨s.store.updateSubmission id Submission.reset,
      s.calls.set i ⟨op, { v with last := none }, next (.ok ())⟩⟩ := by
    simp only [Service.step, hi, Option.some.injEq] at h
    rw [← h]
    show (⟨(serve c s.store (.resetSubmission id)).2, _⟩ : SubmissionConfig) = _
    simp only [submissionService, hserve]
    rfl
  have hreach : (submissionSystem bson Init).Reachable s' :=
    .step (a := .serve i c) hs.reachable trivial h
  subst hs'
  constructor
  · intro text htext
    have htext' : s.store.cached (cacheKey id) = some text := htext
    rw [hcached] at htext'
    cases htext'
  · intro x hx j auth text hop hpending
    have hwrites := pending_caches hreach hx hpending _ _ rfl
    rcases List.mem_or_eq_of_mem_set hx with hx | rfl
    · exact absurd (by unfold WritesBack; rw [hop]; exact ⟨text, hpending⟩) (hnone x hx)
    · rw [hop] at hwrites
      obtain ⟨j', d, hlast, -⟩ := hwrites
      cases hlast
  · intro x hx w r hop hid hpending
    rcases List.mem_or_eq_of_mem_set hx with hx | rfl
    · refine .inl (eq_true_of_ne_false fun hr => hnone x hx ?_)
      unfold WritesBack
      rw [hop]
      exact ⟨hid, r, hpending, hr⟩
    · -- the judge makes no reset
      refine absurd ?_ (hnone _ hmem)
      unfold WritesBack
      dsimp only at hop ⊢
      rw [hop]
      exact ⟨hid, _, rfl, rfl⟩
  · intro m x hm hx
    rw [List.getElem?_eq_none (by rw [List.length_set]; exact hm)] at hx
    cases hx

/-! ### What a step keeps -/

section Keep

/-- A call starts. -/
theorem Fresh.start (hfresh : Fresh id n l s) (op : SubmissionOperation) :
    Fresh id n (l ++ [⟨s.store, s.calls ++ [(submissionService bson).begin op]⟩])
      ⟨s.store, s.calls ++ [(submissionService bson).begin op]⟩ := by
  have hmono : ∀ x ∈ l, x ∈ l ++ [⟨s.store, s.calls ++ [(submissionService bson).begin op]⟩] :=
    fun x hx => List.mem_append_left _ hx
  constructor
  · exact fun text htext => (hfresh.entry text htext).mono hmono
  · intro x hx j auth text hop hpending
    rcases List.mem_append.mp hx with hx | hx
    · exact (hfresh.fill x hx j auth text hop hpending).mono hmono
    · rw [List.mem_singleton.mp hx] at hop hpending
      cases hop
      rw [pending_getSubmissionById] at hpending
      cases hpending
  · intro x hx w r hop hid hpending
    rcases List.mem_append.mp hx with hx | hx
    · exact (hfresh.judged x hx w r hop hid hpending).imp_right (JudgedIn.mono hmono)
    · rw [List.mem_singleton.mp hx] at hop hpending
      cases hop
      exact .inl (pending_storeVerdict w hpending)
  · intro m x hm hx
    rw [List.getElem?_append] at hx
    split_ifs at hx
    · obtain ⟨hentry, hseen⟩ := hfresh.seen m x hm hx
      exact ⟨fun text ht => (hentry text ht).mono hmono, fun d hd => (hseen d hd).mono hmono⟩
    · rw [List.mem_singleton.mp (List.mem_of_getElem? hx)]
      constructor
      · intro text ht
        cases ht
      · intro d hd
        cases hd

variable {i : ℕ} {c : Choice} {op : SubmissionOperation} {v : SourceView} {r : Request}
  {next : Except ServiceError (Reply r) → Task SubmissionResponse}

/-- What a call has seen after an answer. -/
theorem Fresh.hear (hl : s ∈ l) (hfresh : Fresh id n l s)
    (hi : s.calls[i]? = some ⟨op, v, .ask r next⟩) (hm : n ≤ i) :
    (∀ text, ((submissionService bson).hear v r (serve c s.store r).1).entry =
      some (cacheKey id, text) → EntrySince l id text) ∧
    ∀ d, ((submissionService bson).hear v r (serve c s.store r).1).doc = some (id, d) →
      StoredIn l id d := by
  obtain ⟨hentry, hseen⟩ := hfresh.seen i _ hm hi
  cases hy : (serve c s.store r).1 with
  | error e => exact ⟨hentry, hseen⟩
  | ok y =>
    constructor
    · intro text ht
      rcases entry_look hy ht with hold | hcached
      · exact hentry text hold
      · exact hfresh.entry text hcached
    · intro d hd
      rcases doc_look hy hd with hold | hfound
      · exact hseen d hold
      · exact ⟨s, hl, hfound⟩

/-- The entries that are there after a request. -/
theorem Fresh.serveEntry (hs : (submissionSystem bson Init).ReachableVia C s)
    (hfresh : Fresh id n l s) (hi : s.calls[i]? = some ⟨op, v, .ask r next⟩) {text : String}
    (htext : (serve c s.store r).2.cached (cacheKey id) = some text) : EntrySince l id text := by
  have hmem := List.mem_of_getElem? hi
  rcases cached_serve htext with hold | rfl
  · exact hfresh.entry text hold
  · have hwrites := pending_caches hs hmem rfl _ _ rfl
    cases op with
    | getSubmissionById j auth => exact hfresh.fill _ hmem j auth text rfl rfl
    | processAndStoreResults w =>
      obtain ⟨hkey, userId, j, hj, htext⟩ := hwrites
      have hid := (cacheKey_injective hkey).symm
      rcases hfresh.judged _ hmem w _ rfl hid rfl with hupdate | hw
      · cases hupdate
      · exact .inr ⟨w, userId, j, hw, hj, htext⟩
    | _ => exact hwrites.elim

/-- The entry that a read is about to write after an answer is of what it has just found. -/
theorem serveFill (hs : (submissionSystem bson Init).ReachableVia C s) (hl : s ∈ l)
    (hi : s.calls[i]? = some ⟨op, v, .ask r next⟩) {j : ObjectId} {auth : Requester}
    {text : String} (hop : op = .getSubmissionById j auth)
    (hpending : (next (serve c s.store r).1).pending = some (.setCache (cacheKey id) text))
    (hwrites : WritesEntry ((submissionService bson).hear v r (serve c s.store r).1)
      (cacheKey id) text op) : EntrySince l id text := by
  subst hop
  obtain ⟨k, d, hlast, hkey, htext⟩ := hwrites
  obtain rfl := cacheKey_injective hkey
  cases hy : (serve c s.store r).1 with
  | ok y =>
    rw [hy] at hlast
    exact .inl ⟨d, ⟨s, hl, last_look hy hlast⟩, htext⟩
  | error e =>
    obtain ⟨e', he⟩ := (reachable_strict hs _ (List.mem_of_getElem? hi) j auth rfl).1 e
    rw [hy, he] at hpending
    cases hpending

/-- A request is served. -/
theorem Fresh.serve (hs : (submissionSystem bson Init).ReachableVia C s) (hl : s ∈ l)
    (hfresh : Fresh id n l s) (hi : s.calls[i]? = some ⟨op, v, .ask r next⟩) {store : Store}
    {c' : SubmissionCall} (hstore : store = (Api.serve c s.store r).2)
    (hc' : c' = ⟨op, (submissionService bson).hear v r (Api.serve c s.store r).1,
      next (Api.serve c s.store r).1⟩)
    (hreach : (submissionSystem bson Init).Reachable ⟨store, s.calls.set i c'⟩) :
    Fresh id n (l ++ [⟨store, s.calls.set i c'⟩]) ⟨store, s.calls.set i c'⟩ := by
  have hmono : ∀ x ∈ l, x ∈ l ++ [⟨store, s.calls.set i c'⟩] :=
    fun x hx => List.mem_append_left _ hx
  have hmem := List.mem_of_getElem? hi
  constructor
  · intro text htext
    exact (hfresh.serveEntry hs hi (hstore ▸ htext)).mono hmono
  · intro x hx j auth text hop hpending
    have hwrites := pending_caches hreach hx hpending _ _ rfl
    rcases List.mem_or_eq_of_mem_set hx with hx | rfl
    · exact (hfresh.fill x hx j auth text hop hpending).mono hmono
    · subst hc'
      exact (serveFill hs hl hi hop hpending hwrites).mono hmono
  · intro x hx w r' hop hid hpending
    rcases List.mem_or_eq_of_mem_set hx with hx | rfl
    · exact (hfresh.judged x hx w r' hop hid hpending).imp_right (JudgedIn.mono hmono)
    · right
      subst hc'
      rcases hfresh.judged _ hmem w r hop hid rfl with hupdate | hw
      · exact ⟨hid, s, hmono s hl, _, hmem, hop, r, rfl, hupdate⟩
      · exact hw.mono hmono
  · intro m x hm hx
    by_cases him : i = m
    · subst him
      rw [List.getElem?_set_self (List.getElem?_eq_some_iff.mp hi).1] at hx
      obtain rfl := Option.some.inj hx
      subst hc'
      obtain ⟨hentry, hseen⟩ := hfresh.hear hl hi hm
      exact ⟨fun text ht => (hentry text ht).mono hmono, fun d hd => (hseen d hd).mono hmono⟩
    · rw [List.getElem?_set_ne him] at hx
      obtain ⟨hentry, hseen⟩ := hfresh.seen m x hm hx
      exact ⟨fun text ht => (hentry text ht).mono hmono, fun d hd => (hseen d hd).mono hmono⟩

end Keep

/-- A step keeps the reads fresh. -/
theorem Fresh.step (hs : (submissionSystem bson Init).ReachableVia C s) (hl : s ∈ l)
    (hfresh : Fresh id n l s) (h : (submissionService bson).step s a = some s') :
    Fresh id n (l ++ [s']) s' := by
  have hreach : (submissionSystem bson Init).Reachable s' :=
    .step (a := a) hs.reachable trivial h
  obtain ⟨op, -, rfl⟩ | ⟨i, c, op, v, r, next, -, hi, rfl⟩ := Service.step_cases h
  · exact hfresh.start op
  · exact hfresh.serve hs hl hi rfl rfl hreach

end Steps

/-! ## Main results -/

def judgedId : ObjectId := "65f000000000000000000001"

/-- A database with one accepted submission. -/
def acceptedStore : Store where
  clock := .zero
  students := []
  assessments := []
  attempts := []
  problems := [⟨"problem", "Sum", none, none, none, [], false⟩]
  counts := []
  submissions := [⟨judgedId, "problem", "alice", none, none, none, .zero, "print()", "python",
    .success, some "ok", none, none, none⟩]
  usageEvents := []
  cache := []
  queue := []

def admin : Requester := ⟨some "root", .superadmin, none⟩

/-- What a read of the submission has returned. -/
def shownTo (id : ObjectId) (s : SubmissionConfig) (n : ℕ) : Option Properties :=
  match s.calls[n]? with
  | some ⟨.getSubmissionById i _, _, .done (.read (.found _ g))⟩ => if i = id then some g else none
  | _ => none

theorem shownTo_eq_some {id : ObjectId} {s : SubmissionConfig} {n : ℕ} {g : Properties}
    (h : shownTo id s n = some g) : ∃ auth v b,
      s.calls[n]? = some ⟨.getSubmissionById id auth, v, .done (.read (.found b g))⟩ := by
  unfold shownTo at h
  split at h
  · rename_i i auth v b g' hcall
    split_ifs at h with hi
    obtain rfl := Option.some.inj h
    exact ⟨auth, v, b, hi ▸ hcall⟩
  · cases h

/-- The status that such a read shows. -/
def shownStatus (id : ObjectId) (s : SubmissionConfig) (n : ℕ) : Option String :=
  (shownTo id s n).bind fun g =>
    match g "status" with
    | some (.str status) => some status
    | _ => none

def serveNext (i : ℕ) : SubmissionAction := .serve i {}

/-- The submission that a call is about to reset. -/
def pendingReset (s : SubmissionConfig) (i : ℕ) : Option ObjectId :=
  match s.calls[i]?.bind fun c => c.rest.pending with
  | some (.resetSubmission id) => some id
  | _ => none

theorem Resets.pendingReset {id : ObjectId} {s : SubmissionConfig} {i : ℕ} {c : Choice}
    (h : Resets id s (.serve i c)) : pendingReset s i = some id := by
  obtain ⟨i', c', op, v, next, hact, hi, -⟩ := h
  cases hact
  simp [Api.pendingReset, hi, Program.pending]

theorem resets_of_pendingReset {id : ObjectId} {s : SubmissionConfig} {i : ℕ}
    (h : pendingReset s i = some id) : Resets id s (serveNext i) := by
  unfold pendingReset at h
  split at h
  · rename_i id' hpending
    obtain rfl := Option.some.inj h
    obtain ⟨⟨op, v, rest⟩, hi, hrest⟩ := Option.bind_eq_some_iff.mp hpending
    cases rest with
    | ask r next =>
      obtain rfl := Option.some.inj hrest
      exact ⟨i, {}, op, v, next, rfl, hi, rfl⟩
    | _ => cases hrest
  · cases h

def noReset (s : SubmissionConfig) : SubmissionAction → Bool
  | .start _ => true
  | .serve i _ => (pendingReset s i).isNone

theorem resetsUncached_of_noReset (s : SubmissionConfig) (a : SubmissionAction)
    (h : noReset s a = true) : ResetsUncached s a := by
  intro id hreset
  cases a with
  | start op =>
    obtain ⟨i, c, op', v, next, hact, -⟩ := hreset
    cases hact
  | serve i c =>
    have hnone : (pendingReset s i).isNone = true := h
    rw [hreset.pendingReset] at hnone
    cases hnone

def isRejudge : SubmissionOperation → Bool
  | .rejudgeSubmission _ => true
  | _ => false

/-- A rejudge that runs alone. -/
def resetsAlone (s : SubmissionConfig) : Bool :=
  pendingReset s 0 = some judgedId ∧ s.store.cached (cacheKey judgedId) = none ∧
    s.calls.all fun c => isRejudge c.op

theorem resetsUncached_of_alone {s : SubmissionConfig} (h : resetsAlone s = true) :
    ResetsUncached s (serveNext 0) := by
  obtain ⟨hpending, hcached, hall⟩ := of_decide_eq_true h
  intro id hreset
  have hid := hreset.pendingReset.symm.trans hpending
  obtain rfl := Option.some.inj hid
  refine ⟨hcached, fun c hc hback => ?_⟩
  have hop := List.all_eq_true.mp hall c hc
  unfold WritesBack at hback
  cases hc' : c.op with
  | rejudgeSubmission i =>
    rw [hc'] at hback
    exact hback
  | _ =>
    rw [hc'] at hop
    cases hop

end Api
