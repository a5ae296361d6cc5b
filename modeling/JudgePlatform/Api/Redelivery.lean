/-
# A message delivered twice

A worker that crashes after some of the writes of `processAndStoreResults` and before the
acknowledgement leaves the message to be delivered again, and the writes are made from
the start.  The update of the submission is idempotent; the counters of the problem and
the metering are not.

* `evalFor_storeVerdict` : the documents after a number of requests.
* `redelivery_harmless_iff` : where a crash is harmless.
-/
import JudgePlatform.Api.Verdicts

namespace Api

/-! ## Requests that are answered -/

section Answered

variable {s : Store} {α β : Type} {r : Request} {x : Reply r}

theorem evalFor_logged {f : Option (Reply r) → Task β} (h : (serve {} s r).1 = .ok x) (n : ℕ) :
    (logged (ask r) >>= f).evalFor (serve {}) (n + 1) s =
      (f (some x)).evalFor (serve {}) n (serve {} s r).2 := by
  show (Program.bind (Program.handle _ _) f).evalFor (serve {}) n (serve {} s r).2 = _
  rw [h]
  rfl

end Answered

/-! ## The documents -/

/-- What a redelivery can change: the submissions, the counters of the problems, and the usage
events. -/
structure Documents where
  submissions : List Submission
  counts : List ProblemCount
  usageEvents : List UsageEvent

def Store.documents (s : Store) : Documents := ⟨s.submissions, s.counts, s.usageEvents⟩

namespace Documents

variable (bson : GoValue → JsValue) (v : Verdict) (d : Documents)

/-- The result is stored. -/
def stored : Documents :=
  { d with
    submissions := updateDoc Submission.id d.submissions v.submissionId
      (Submission.withResult v.outcome.status v.outcome.output
        (some (Judge.resultDocument bson v.outcome.testResult))) }

/-- The counters are incremented. -/
def counted : Documents :=
  { d with
    counts := updateDoc ProblemCount.problemId d.counts v.problemId fun c =>
      { c with
        submissionCount := c.submissionCount + 1
        acceptedCount := c.acceptedCount +
          if decide (v.outcome.status = .success) then 1 else 0 } }

/-- The usage event is recorded. -/
def metered : Documents :=
  { d with
    usageEvents := d.usageEvents ++
      [v.usageEvent ((findDoc Submission.id d.submissions v.submissionId).map Submission.userId)] }

/-- The documents after the first requests of `publishVerdict`. -/
def published (n : ℕ) : Documents :=
  if isObjectId v.problemId then
    if 3 ≤ n then (d.counted v).metered v else if 1 ≤ n then d.counted v else d
  else if 2 ≤ n then d.metered v else d

/-- The documents after the first requests of `storeVerdict`. -/
def after (n : ℕ) : Documents :=
  if isObjectId v.submissionId ∧ 1 ≤ n then (d.stored bson v).published v (n - 1) else d

end Documents

/-! ## The requests of a verdict -/

/-- `publishVerdict` after the counters. -/
def recordVerdict (v : Verdict) : Task Unit := do
  let original : Option (Option Submission) ← logged (ask (.findSubmission v.submissionId))
  let userId := original.join.map Submission.userId
  let _ ← logged (ask (.recordUsage (v.usageEvent userId)))
  match v.entry (userId.getD nilObjectId) with
  | .ok j =>
    let _ ← logged (ask (.setCache (cacheKey v.submissionId) (goText j)))
    pure ()
  | .error _ => pure ()

theorem publishVerdict_eq (v : Verdict) :
    publishVerdict v =
      if isObjectId v.problemId then
        logged (ask (.countVerdict v.problemId (v.outcome.status = .success))) >>= fun _ =>
          recordVerdict v
      else recordVerdict v := by
  unfold publishVerdict
  split_ifs <;> rfl

theorem evalFor_recordVerdict (v : Verdict) (n : ℕ) (s : Store) :
    ((recordVerdict v).evalFor (serve {}) n s).documents =
      if 2 ≤ n then s.documents.metered v else s.documents := by
  unfold recordVerdict
  rcases n with _ | n
  · rfl
  · refine (congrArg Store.documents
      (evalFor_logged (r := .findSubmission v.submissionId) (s := s) rfl n)).trans ?_
    rcases n with _ | n
    · rfl
    · rw [evalFor_logged (r := .recordUsage _) rfl, if_pos (by omega)]
      split
      · -- the cache is none of the documents
        rcases n with _ | n
        · rfl
        · rw [evalFor_logged (r := .setCache _ _) rfl]
          cases n <;> rfl
      · cases n <;> rfl

theorem evalFor_publishVerdict (v : Verdict) (n : ℕ) (s : Store) :
    ((publishVerdict v).evalFor (serve {}) n s).documents = s.documents.published v n := by
  rw [publishVerdict_eq, Documents.published]
  split_ifs with hproblem hmetered hcounted hmetered
  · obtain ⟨m, rfl⟩ : ∃ m, n = m + 1 := ⟨n - 1, by omega⟩
    rw [evalFor_logged (r := .countVerdict _ _) rfl, evalFor_recordVerdict, if_pos (by omega)]
    rfl
  · obtain ⟨m, rfl⟩ : ∃ m, n = m + 1 := ⟨n - 1, by omega⟩
    rw [evalFor_logged (r := .countVerdict _ _) rfl, evalFor_recordVerdict, if_neg (by omega)]
    rfl
  · have hn : n = 0 := by omega
    rw [hn]
    rfl
  · rw [evalFor_recordVerdict, if_pos hmetered]
  · rw [evalFor_recordVerdict, if_neg hmetered]

/-- **The documents after a number of requests** of `processAndStoreResults`. -/
theorem evalFor_storeVerdict (bson : GoValue → JsValue) (v : Verdict) (n : ℕ) (s : Store) :
    ((storeVerdict bson v).evalFor (serve {}) n s).documents = s.documents.after bson v n := by
  unfold storeVerdict Documents.after
  by_cases hid : isObjectId v.submissionId = true
  · rw [if_pos hid]
    rcases n with _ | n
    · rw [if_neg (by omega)]
      rfl
    · rw [evalFor_logged (r := .storeResult _ _ _ _) rfl, evalFor_publishVerdict, if_pos ⟨hid, by omega⟩]
      rfl
  · rw [if_neg hid, if_neg fun h => hid h.1]
    cases n <;> rfl

/-- The documents after all requests. -/
theorem eval_storeVerdict (bson : GoValue → JsValue) (v : Verdict) (s : Store) :
    ((storeVerdict bson v).eval (serve {}) s).2.documents = s.documents.after bson v 4 := by
  obtain ⟨n, hn⟩ := Program.exists_evalFor_eq (serve {}) (storeVerdict bson v) s
  rw [← hn (n + 4) (by omega), evalFor_storeVerdict]
  unfold Documents.after Documents.published
  -- no request after the fourth one changes a document
  simp only [show 1 ≤ n + 4 by omega, show 1 ≤ 4 by omega, show 3 ≤ n + 4 - 1 by omega,
    show 3 ≤ 4 - 1 by omega, show 2 ≤ n + 4 - 1 by omega, show 2 ≤ 4 - 1 by omega, if_true]

namespace Documents

variable {bson : GoValue → JsValue} {v : Verdict} {d : Documents} {n : ℕ}

/-- The user of the submission, whom a verdict does not change. -/
def userId (v : Verdict) (d : Documents) : Option ObjectId :=
  (findDoc Submission.id d.submissions v.submissionId).map Submission.userId

/-- How many requests are made up to the metering. -/
def meterRequest (v : Verdict) : ℕ := if isObjectId v.problemId then 4 else 3

theorem userId_stored : (d.stored bson v).userId v = d.userId v := by
  have hid : ∀ x : Submission, (x.withResult v.outcome.status v.outcome.output
      (some (Judge.resultDocument bson v.outcome.testResult))).id = x.id := fun _ => rfl
  unfold userId stored
  dsimp only
  rw [findDoc_updateDoc Submission.id hid, if_pos rfl, Option.map_map]
  rfl

theorem submissions_after (hid : isObjectId v.submissionId = true) (hn : 1 ≤ n) :
    (d.after bson v n).submissions = (d.stored bson v).submissions := by
  unfold after published
  rw [if_pos ⟨hid, hn⟩]
  split_ifs <;> rfl

theorem counts_published (d : Documents) (n : ℕ) :
    (d.published v n).counts =
      if isObjectId v.problemId = true ∧ 1 ≤ n then (d.counted v).counts else d.counts := by
  unfold published
  by_cases hproblem : isObjectId v.problemId = true
  · simp only [hproblem, if_true, true_and]
    split_ifs with hmeter hcount hcount
    · rfl
    · omega
    · rfl
    · rfl
  · simp only [hproblem, Bool.false_eq_true, if_false, false_and]
    split_ifs <;> rfl

theorem counts_after (hid : isObjectId v.submissionId = true) :
    (d.after bson v n).counts =
      if isObjectId v.problemId = true ∧ 2 ≤ n then (d.counted v).counts else d.counts := by
  unfold after
  by_cases hn : 1 ≤ n
  · rw [if_pos ⟨hid, hn⟩, counts_published]
    exact if_congr (and_congr_right fun _ => by omega) rfl rfl
  · rw [if_neg fun h => hn h.2, if_neg fun h => hn (by omega)]

theorem usageEvents_published (d : Documents) (n : ℕ) :
    (d.published v n).usageEvents =
      if meterRequest v ≤ n + 1 then d.usageEvents ++ [v.usageEvent (d.userId v)]
      else d.usageEvents := by
  unfold published meterRequest
  by_cases hproblem : isObjectId v.problemId = true
  · simp only [hproblem, if_true]
    by_cases hmeter : 3 ≤ n
    · rw [if_pos hmeter, if_pos (by omega)]
      rfl
    · rw [if_neg hmeter, if_neg (show ¬4 ≤ n + 1 by omega)]
      split_ifs <;> rfl
  · simp only [hproblem, if_false, Bool.false_eq_true]
    by_cases hmeter : 2 ≤ n
    · rw [if_pos hmeter, if_pos (by omega)]
      rfl
    · rw [if_neg hmeter, if_neg (by omega)]

theorem three_le_meterRequest (v : Verdict) : 3 ≤ meterRequest v := by
  unfold meterRequest
  split_ifs <;> omega

theorem usageEvents_after (hid : isObjectId v.submissionId = true) :
    (d.after bson v n).usageEvents =
      if meterRequest v ≤ n then d.usageEvents ++ [v.usageEvent (d.userId v)]
      else d.usageEvents := by
  have hmeter := three_le_meterRequest v
  unfold after
  by_cases hn : 1 ≤ n
  · rw [if_pos ⟨hid, hn⟩, usageEvents_published, userId_stored, Nat.sub_add_cancel hn]
    rfl
  · rw [if_neg fun h => hn h.2, if_neg (by omega)]

end Documents

/-! ## Documents written twice -/

theorem updateDoc_updateDoc {α : Type} {key : α → ObjectId} {f : α → α}
    (hkey : ∀ d, key (f d) = key d) (hf : ∀ d, f (f d) = f d) (docs : List α) (id : ObjectId) :
    updateDoc key (updateDoc key docs id f) id f = updateDoc key docs id f := by
  unfold updateDoc
  rw [List.map_map]
  apply List.map_congr_left
  intro d _
  simp only [Function.comp_apply]
  by_cases hd : key d = id
  · rw [if_pos hd, if_pos (by rw [hkey, hd]), hf]
  · rw [if_neg hd, if_neg hd]

/-- An update that changes each document it meets is made twice without effect only if it meets
none. -/
theorem updateDoc_eq_updateDoc_iff {α : Type} {key : α → ObjectId} {f : α → α}
    (hkey : ∀ d, key (f d) = key d) (hf : ∀ d, f (f d) ≠ f d) (docs : List α) (id : ObjectId) :
    updateDoc key (updateDoc key docs id f) id f = updateDoc key docs id f ↔
      ∀ d ∈ docs, key d ≠ id := by
  unfold updateDoc
  rw [List.map_map]
  constructor
  · intro h d hd hid
    have heq := (List.map_inj_left.mp h) d hd
    simp only [Function.comp_apply] at heq
    rw [if_pos hid, if_pos (by rw [hkey, hid])] at heq
    exact hf d heq
  · intro h
    apply List.map_congr_left
    intro d hd
    simp only [Function.comp_apply]
    rw [if_neg (h d hd), if_neg (h d hd)]

/-! ## Redelivery -/

/-- The message is processed again after a crash at the `n`-th request, and the documents are
those of one processing; the order of the usage events does not matter. -/
def Harmless (bson : GoValue → JsValue) (v : Verdict) (s : Store) (n : ℕ) : Prop :=
  let crashed := (storeVerdict bson v).evalFor (serve {}) n s
  let twice := ((storeVerdict bson v).eval (serve {}) crashed).2.documents
  let once := ((storeVerdict bson v).eval (serve {}) s).2.documents
  twice.submissions = once.submissions ∧ twice.counts = once.counts ∧
    twice.usageEvents.Perm once.usageEvents

/-- The judge counts verdicts on the problem: its id is one, and it is stored. -/
def Counts (v : Verdict) (s : Store) : Prop :=
  isObjectId v.problemId = true ∧ ∃ c ∈ s.counts, c.problemId = v.problemId

namespace Documents

variable {bson : GoValue → JsValue} {v : Verdict} {n : ℕ}

theorem userId_after (hid : isObjectId v.submissionId = true) (d : Documents) :
    (d.after bson v n).userId v = d.userId v := by
  by_cases hn : 1 ≤ n
  · have hstored : (d.stored bson v).userId v = d.userId v := userId_stored
    rw [← hstored]
    unfold userId
    rw [submissions_after hid hn]
  · unfold after
    rw [if_neg fun h => hn h.2]

/-- The result is stored twice without effect. -/
theorem submissions_after_after (hid : isObjectId v.submissionId = true) (d : Documents) :
    ((d.after bson v n).after bson v 4).submissions = (d.after bson v 4).submissions := by
  rw [submissions_after hid (by omega), submissions_after hid (by omega)]
  by_cases hn : 1 ≤ n
  · unfold stored
    dsimp only
    rw [submissions_after hid hn]
    refine updateDoc_updateDoc (f := Submission.withResult _ _ _) ?_ ?_ d.submissions v.submissionId
    · intro x
      rfl
    · intro x
      rfl
  · unfold after
    rw [if_neg fun h => hn h.2]

/-- The counters are the same where they were not incremented before. -/
theorem counts_after_after_iff (hid : isObjectId v.submissionId = true) (d : Documents) :
    ((d.after bson v n).after bson v 4).counts = (d.after bson v 4).counts ↔
      ¬(2 ≤ n ∧ isObjectId v.problemId = true ∧ ∃ c ∈ d.counts, c.problemId = v.problemId) := by
  rw [counts_after (d := d.after bson v n) (n := 4) hid, counts_after (d := d) (n := 4) hid]
  by_cases hproblem : isObjectId v.problemId = true
  · rw [if_pos ⟨hproblem, by omega⟩, if_pos ⟨hproblem, by omega⟩]
    unfold counted
    dsimp only
    rw [counts_after hid]
    by_cases hn : 2 ≤ n
    · rw [if_pos ⟨hproblem, hn⟩]
      refine (updateDoc_eq_updateDoc_iff (fun _ => ?_) ?_ d.counts v.problemId).trans ?_
      · rfl
      · intro c h
        have hcount := congrArg ProblemCount.submissionCount h
        simp only at hcount
        omega
      · simp [hn, hproblem]
    · rw [if_neg fun h => hn h.2]
      simp [hn]
  · rw [if_neg fun h => hproblem h.1, if_neg fun h => hproblem h.1, counts_after hid,
      if_neg fun h => hproblem h.1]
    simp [hproblem]

/-- The usage events are the same where none was recorded before. -/
theorem usageEvents_after_after_iff (hid : isObjectId v.submissionId = true) (d : Documents) :
    ((d.after bson v n).after bson v 4).usageEvents.Perm (d.after bson v 4).usageEvents ↔
      n < meterRequest v := by
  have hall : meterRequest v ≤ 4 := by
    unfold meterRequest
    split_ifs <;> omega
  rw [usageEvents_after (d := d.after bson v n) (n := 4) hid,
    usageEvents_after (d := d) (n := 4) hid, if_pos hall, if_pos hall, userId_after hid,
    usageEvents_after hid]
  by_cases hn : meterRequest v ≤ n
  · rw [if_pos hn]
    constructor
    · intro h
      have hlength := h.length_eq
      simp only [List.length_append, List.length_singleton] at hlength
      omega
    · intro h
      omega
  · rw [if_neg hn]
    exact ⟨fun _ => by omega, fun _ => List.Perm.refl _⟩

end Documents

/-- **A crash is harmless** if and only if the submission has no valid id, or it comes before
the second request that writes: before the counters where these count, and else before the
metering. -/
theorem redelivery_harmless_iff (bson : GoValue → JsValue) (v : Verdict) (s : Store) (n : ℕ) :
    Harmless bson v s n ↔
      isObjectId v.submissionId = false ∨ n ≤ 1 ∨
        (¬Counts v s ∧ n < Documents.meterRequest v) := by
  unfold Harmless
  simp only [eval_storeVerdict, evalFor_storeVerdict]
  by_cases hid : isObjectId v.submissionId = true
  · have hmeter := Documents.three_le_meterRequest v
    rw [Documents.counts_after_after_iff hid, Documents.usageEvents_after_after_iff hid]
    have hcounts : (2 ≤ n ∧ isObjectId v.problemId = true ∧
        ∃ c ∈ s.documents.counts, c.problemId = v.problemId) ↔ 2 ≤ n ∧ Counts v s := Iff.rfl
    rw [hcounts]
    constructor
    · rintro ⟨-, hnot, hlt⟩
      by_cases hn : n ≤ 1
      · exact Or.inr (Or.inl hn)
      · exact Or.inr (Or.inr ⟨fun hc => hnot ⟨by omega, hc⟩, hlt⟩)
    · rintro (hno | hn | ⟨hno, hlt⟩)
      · rw [hid] at hno
        cases hno
      · exact ⟨Documents.submissions_after_after hid _, fun h => by omega, by omega⟩
      · exact ⟨Documents.submissions_after_after hid _, fun h => hno h.2, hlt⟩
  · have hsame : ∀ (d : Documents) (m : ℕ), d.after bson v m = d := by
      intro d m
      unfold Documents.after
      rw [if_neg fun h => hid h.1]
    simp only [hsame]
    simp [hid]

/-- A submission that was accepted, and the only one of its problem so far. -/
def firstVerdict : Verdict where
  submissionId := "64b000000000000000000001"
  problemId := "64b000000000000000000002"
  language := "python"
  code := "pass"
  collegeId := ""
  outcome := { status := .success, output := "", testResult := none }

def beforeFirstVerdict : Store where
  clock := .ofInt 0
  students := []
  assessments := []
  attempts := []
  problems := []
  counts := [⟨"64b000000000000000000002", 0, 0⟩]
  submissions := []
  usageEvents := []
  cache := []
  queue := []

/-- A crash after the counters: they are incremented twice. -/
theorem verdict_counted_twice :
    ((storeVerdict (fun _ => .null) firstVerdict).eval (serve {}) beforeFirstVerdict).2.counts =
        [⟨"64b000000000000000000002", 1, 1⟩] ∧
      ((storeVerdict (fun _ => .null) firstVerdict).eval (serve {})
          ((storeVerdict (fun _ => .null) firstVerdict).evalFor (serve {}) 2
            beforeFirstVerdict)).2.counts = [⟨"64b000000000000000000002", 2, 2⟩] ∧
      ¬Harmless (fun _ => .null) firstVerdict beforeFirstVerdict 2 := by
  have hid : isObjectId firstVerdict.submissionId = true := by decide +kernel
  have hproblem : isObjectId firstVerdict.problemId = true := by decide +kernel
  have honce : ((storeVerdict (fun _ => .null) firstVerdict).eval (serve {})
      beforeFirstVerdict).2.documents.counts = [⟨"64b000000000000000000002", 1, 1⟩] := by
    rw [eval_storeVerdict, Documents.counts_after hid, if_pos ⟨hproblem, by omega⟩]
    rfl
  have htwice : ((storeVerdict (fun _ => .null) firstVerdict).eval (serve {})
      ((storeVerdict (fun _ => .null) firstVerdict).evalFor (serve {}) 2
        beforeFirstVerdict)).2.documents.counts = [⟨"64b000000000000000000002", 2, 2⟩] := by
    rw [eval_storeVerdict, evalFor_storeVerdict, Documents.counts_after hid,
      if_pos ⟨hproblem, by omega⟩]
    unfold Documents.counted
    dsimp only
    rw [Documents.counts_after hid, if_pos ⟨hproblem, by omega⟩]
    rfl
  refine ⟨honce, htwice, ?_⟩
  rintro ⟨-, hcounts, -⟩
  rw [honce, htwice] at hcounts
  simp at hcounts

end Api
