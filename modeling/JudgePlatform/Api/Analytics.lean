/-
# The analytics of an assessment

`getAssessmentAnalytics` (`services/assessments.service.js`) counts over the attempts and the
submissions of an assessment, and reports rates in percent and the scores.

In JavaScript a division by zero gives an infinity or no number; here it is an error of its
own, so that the model says that there is none.

* `getAssessmentAnalytics` : the function, over what its queries find.
* `InRange` : the rates are between 0 and 100, the average is between the lowest and the
  highest score, and nobody solves a problem without an attempt at it.
* `analytics_in_range_iff` : when this is so.
-/
import JudgePlatform.Api.Documents
import JudgePlatform.Api.Plans
import JudgePlatform.Library.Rounding

namespace Analytics

open Api (ObjectId Number Date Role AttemptStatus SubmissionStatus)
open Binary64 (toFixed)

/-! ## What the queries find -/

structure Student where
  id : ObjectId
  section_ : Option String

/-- An attempt with its student, where there still is one. -/
structure Attempt where
  studentId : Option Student
  status : AttemptStatus
  score : Option Number

structure Problem where
  id : ObjectId
  title : Option String
  difficulty : Option String

structure AssessmentProblem where
  problemId : Option Problem
  maxScore : Option Number

structure Assessment where
  id : ObjectId
  title : String
  startTime : Date
  endTime : Date
  problems : List AssessmentProblem

structure Submission where
  problemId : ObjectId
  userId : ObjectId
  status : SubmissionStatus

/-- No array of JavaScript is longer than this. -/
def maxLength : ℕ := 2 ^ 32 - 1

structure Found where
  assessment : Option Assessment
  students : List Student
  attempts : List Attempt
  submissions : List Submission
  attempts_length : attempts.length ≤ maxLength
  submissions_length : submissions.length ≤ maxLength

/-! ## The report -/

structure OverallStats where
  totalStudents : ℕ
  startedCount : ℕ
  submittedCount : ℕ
  activeCount : ℕ
  avgScore : Number
  highestScore : Number
  lowestScore : Number
  passRate : Number
  maxPossibleScore : Number

structure SectionStats where
  section_ : String
  total : ℕ := 0
  started : ℕ := 0
  submitted : ℕ := 0
  scores : List Number := []
  passedCount : ℕ := 0

structure SectionReport where
  section_ : String
  total : ℕ
  started : ℕ
  submitted : ℕ
  avgScore : Number
  passRate : Number

structure QuestionReport where
  problemId : ObjectId
  title : String
  difficulty : String
  maxScore : Number
  attemptCount : ℕ
  solvedCount : ℕ
  solvedRate : Number
  overallSolvedRate : Number

structure Report where
  id : ObjectId
  title : String
  startTime : Date
  endTime : Date
  overallStats : OverallStats
  sectionReports : List SectionReport
  questionReports : List QuestionReport

inductive Failure where
  | http (status : ℕ) (error : String)
  | typeError
  | divisionByZero
  deriving DecidableEq

/-! ## Numbers -/

/-- `x || y` -/
def numberOr (x : Option Number) (y : Number) : Number :=
  match x with
  | some x => if x.eq .zero ∨ x matches .nan then y else x
  | none => y

/-- `s || t` -/
def textOr (s : Option String) (t : String) : String := (s.filter (· ≠ "")).getD t

/-- `xs.reduce((a, b) => a + b, 0)` -/
def sum (xs : List Number) : Number := xs.foldl Binary64.add .zero

/-- `Math.max(...xs)`, of numbers among which there are no NaN and no negative zero. -/
def mathMax (xs : List Number) : Number := xs.foldl (fun m x => if m.le x then x else m) (.inf true)

/-- `Math.min(...xs)`, in the same way. -/
def mathMin (xs : List Number) : Number := xs.foldl (fun m x => if x.le m then x else m) (.inf false)

def quotient (x : Number) (n : ℕ) : Except Failure Number :=
  if n = 0 then .error .divisionByZero else .ok (x.div (.ofInt n))

/-- `Number(((part / whole) * 100).toFixed(0))` -/
def percent (part whole : ℕ) : Except Failure Number :=
  (quotient (.ofInt part) whole).map fun x => toFixed 0 (x.mul (.ofInt 100))

/-- The same, or 0 for a whole that is empty. -/
def rate (part whole : ℕ) : Except Failure Number :=
  if whole > 0 then percent part whole else .ok .zero

/-- `Number((sum / xs.length).toFixed(1))` -/
def average (xs : List Number) : Except Failure Number :=
  (quotient (sum xs) xs.length).map (toFixed 1)

/-- The results for a list, or the first failure. -/
def collect {α β : Type} (f : α → Except Failure β) : List α → Except Failure (List β)
  | [] => .ok []
  | x :: xs =>
    match f x with
    | .error e => .error e
    | .ok y => (collect f xs).map (y :: ·)

/-! ## Attempts -/

def Attempt.isCompleted (a : Attempt) : Bool := a.status = .submitted || a.status = .timedOut

def Attempt.scored (a : Attempt) : Number := numberOr a.score .zero

def maxPossibleScore (x : Assessment) : Number :=
  numberOr (some (sum (x.problems.map fun p => numberOr p.maxScore (.ofInt 100)))) (.ofInt 100)

/-- Whether the score reaches `maxPossibleScore * 0.4`. -/
def Attempt.passes (maxPossible : Number) (a : Attempt) : Bool :=
  (maxPossible.mul (.ofRat (2 / 5))).le a.scored

/-- No attempt has the status that is compared with for the number of started ones. -/
def overallStats (d : Found) (maxPossible : Number) : Except Failure OverallStats :=
  let completedAttempts := d.attempts.filter Attempt.isCompleted
  let stats (avgScore highestScore lowestScore passRate : Number) : OverallStats :=
    { totalStudents := d.students.length
      startedCount := d.attempts.length
      submittedCount := completedAttempts.length
      activeCount := (d.attempts.filter fun a => a.status = .active).length
      avgScore, highestScore, lowestScore, passRate
      maxPossibleScore := maxPossible }
  if completedAttempts.length > 0 then
    let scores := completedAttempts.map Attempt.scored
    match average scores with
    | .error e => .error e
    | .ok avgScore =>
      let passedCount := (completedAttempts.filter (Attempt.passes maxPossible)).length
      (percent passedCount completedAttempts.length).map fun passRate =>
        stats avgScore (mathMax scores) (mathMin scores) passRate
  else .ok (stats .zero .zero .zero .zero)

/-! ## Sections -/

def Student.sectionName (s : Student) : String := textOr s.section_ "Unassigned"

/-- `sectionStats[sec]` is changed, and made before if it is missing. -/
def upsert (sec : String) (f : SectionStats → SectionStats) : List SectionStats → List SectionStats
  | [] => [f { section_ := sec }]
  | s :: stats => if s.section_ = sec then f s :: stats else s :: upsert sec f stats

def SectionStats.count (maxPossible : Number) (a : Attempt) (s : SectionStats) : SectionStats :=
  { s with
    total := s.total + 1
    started := s.started + 1
    submitted := if a.isCompleted then s.submitted + 1 else s.submitted
    scores := if a.isCompleted then s.scores ++ [a.scored] else s.scores
    passedCount :=
      if a.isCompleted && a.passes maxPossible then s.passedCount + 1 else s.passedCount }

/-- An attempt is counted in the section of its student.  Under an inherited name stands
something that has no scores. -/
def countAttempt (maxPossible : Number) (stats : List SectionStats) (a : Attempt) :
    Except Failure (List SectionStats) :=
  match a.studentId with
  | none => .ok stats
  | some student =>
    if student.sectionName ∈ Billing.inherited then
      if a.isCompleted then .error .typeError else .ok stats
    else .ok (upsert student.sectionName (SectionStats.count maxPossible a) stats)

def countAttempts (maxPossible : Number) :
    List SectionStats → List Attempt → Except Failure (List SectionStats)
  | stats, [] => .ok stats
  | stats, a :: attempts =>
    match countAttempt maxPossible stats a with
    | .error e => .error e
    | .ok stats => countAttempts maxPossible stats attempts

/-- A student without an attempt is counted too. -/
def countStudent (attempts : List Attempt) (stats : List SectionStats) (student : Student) :
    List SectionStats :=
  if (attempts.any fun a => a.studentId.map Student.id = some student.id) ||
      student.sectionName ∈ Billing.inherited then stats
  else upsert student.sectionName (fun s => { s with total := s.total + 1 }) stats

/-- `Object.values(sectionStats)` -/
def values (stats : List SectionStats) : List SectionStats :=
  (JsValue.listed (stats.map fun s => (s.section_, s))).map Prod.snd

def sectionReport (s : SectionStats) : Except Failure SectionReport :=
  match if s.scores.length > 0 then average s.scores else .ok .zero with
  | .error e => .error e
  | .ok avgScore => (rate s.passedCount s.submitted).map fun passRate =>
    { section_ := s.section_
      total := s.total
      started := s.started
      submitted := s.submitted
      avgScore, passRate }

def sectionReports (d : Found) (maxPossible : Number) : Except Failure (List SectionReport) :=
  match countAttempts maxPossible [] d.attempts with
  | .error e => .error e
  | .ok stats => collect sectionReport (values (d.students.foldl (countStudent d.attempts) stats))

/-! ## Questions -/

/-- `new Set(xs).size` -/
def setSize (xs : List ObjectId) : ℕ := xs.dedup.length

def questionReport (completed : ℕ) (submissions : List Submission) (p : AssessmentProblem) :
    Except Failure QuestionReport :=
  match p.problemId with
  | none => .error .typeError
  | some problem =>
    let pSubmissions := submissions.filter fun s => s.problemId = problem.id
    let attemptCount := setSize (pSubmissions.map Submission.userId)
    let solvedCount :=
      setSize ((pSubmissions.filter fun s => s.status = .success).map Submission.userId)
    match rate solvedCount attemptCount with
    | .error e => .error e
    | .ok solvedRate => (rate solvedCount completed).map fun overallSolvedRate =>
      { problemId := problem.id
        title := textOr problem.title "Unknown"
        difficulty := textOr problem.difficulty "Medium"
        maxScore := numberOr p.maxScore (.ofInt 100)
        attemptCount, solvedCount, solvedRate, overallSolvedRate }

/-- `getAssessmentAnalytics`. -/
def getAssessmentAnalytics (role : Role) (d : Found) : Except Failure Report :=
  if role = .student then .error (.http 403 "Forbidden")
  else
    match d.assessment with
    | none => .error (.http 404 "Assessment not found")
    | some assessment =>
      let maxPossible := maxPossibleScore assessment
      match overallStats d maxPossible with
      | .error e => .error e
      | .ok overallStats =>
        match sectionReports d maxPossible with
        | .error e => .error e
        | .ok sectionReports =>
          (collect (questionReport (d.attempts.filter Attempt.isCompleted).length d.submissions)
            assessment.problems).map fun questionReports =>
              { id := assessment.id
                title := assessment.title
                startTime := assessment.startTime
                endTime := assessment.endTime
                overallStats, sectionReports, questionReports }

/-! ## Percentages -/

section Percent

open Binary64 (nearest)

/-- A quotient of counts, doubled roundings included. -/
theorem percent_bounds {x : ℚ} (hx : 0 ≤ x) :
    100 * x * (1 - 2 ^ (-52 : ℤ)) - 1 / 2 ^ 60 ≤ nearest (nearest x * 100) ∧
      nearest (nearest x * 100) ≤ 100 * x * (1 + 2 ^ (-51 : ℤ)) + 1 / 2 ^ 60 := by
  have hfirst := abs_le.mp (Binary64.abs_nearest_sub_le x)
  have hsecond := abs_le.mp (Binary64.abs_nearest_sub_le (nearest x * 100))
  have hnonneg := Binary64.nearest_nonneg hx
  rw [abs_of_nonneg hx] at hfirst
  rw [abs_of_nonneg (by positivity)] at hsecond
  have hsmall : (2 : ℚ) ^ (-1075 : ℤ) ≤ 2 ^ (-70 : ℤ) :=
    zpow_le_zpow_right₀ (by norm_num) (by norm_num)
  have hpos : (0 : ℚ) < 2 ^ (-1075 : ℤ) := by positivity
  generalize (2 : ℚ) ^ (-1075 : ℤ) = t at *
  norm_num at hfirst hsecond hsmall ⊢
  constructor <;> nlinarith

/-- The percentage stays below a hundred and a half exactly if the part is at most 201
two-hundredths of the whole.  At 201 two-hundredths it is the rounding that keeps it below. -/
theorem percent_lt_iff {part whole : ℕ} (hwhole : whole ≤ maxLength) (hpos : 0 < whole) :
    nearest (nearest ((part : ℚ) / whole) * 100) < 201 / 2 ↔ 200 * part ≤ 201 * whole := by
  have hw : (0 : ℚ) < whole := by exact_mod_cast hpos
  have hlarge : (whole : ℚ) ≤ 2 ^ 32 := by
    unfold maxLength at hwhole
    exact_mod_cast (by omega : whole ≤ 2 ^ 32)
  have hgap : (1 : ℚ) / 2 ^ 32 ≤ 1 / whole := one_div_le_one_div_of_le hw hlarge
  have hx : 0 ≤ (part : ℚ) / whole := by positivity
  obtain ⟨hlower, hupper⟩ := percent_bounds hx
  rcases lt_trichotomy (200 * part) (201 * whole) with h | h | h
  · refine iff_of_true ?_ h.le
    have hle : 200 * (part : ℚ) + 1 ≤ 201 * whole := by exact_mod_cast h
    have hquotient : 200 * ((part : ℚ) / whole) + 1 / whole ≤ 201 := by
      rw [mul_div_assoc', ← add_div, div_le_iff₀ hw]
      exact hle
    generalize (part : ℚ) / whole = x at *
    generalize 1 / (whole : ℚ) = gap at *
    norm_num at hupper hgap
    linarith
  · refine iff_of_true ?_ h.le
    have heq : (part : ℚ) / whole = 201 / 200 := by
      rw [div_eq_div_iff hw.ne' (by norm_num)]
      exact_mod_cast (by omega : part * 200 = 201 * whole)
    rw [heq]
    decide +kernel
  · refine iff_of_false ?_ (by omega)
    have hle : 201 * (whole : ℚ) + 1 ≤ 200 * part := by exact_mod_cast h
    have hquotient : 201 + 1 / whole ≤ 200 * ((part : ℚ) / whole) := by
      rw [mul_div_assoc', le_div_iff₀ hw, add_mul, div_mul_cancel₀ _ hw.ne']
      exact hle
    rw [not_lt]
    generalize (part : ℚ) / whole = x at *
    generalize 1 / (whole : ℚ) = gap at *
    norm_num at hlower hgap
    linarith

/-- **A rate in percent**: when it is at most a hundred. -/
theorem percent_spec {part whole : ℕ} (hpart : part ≤ maxLength) (hwhole : whole ≤ maxLength)
    (hpos : 0 < whole) :
    ∃ x q, percent part whole = .ok x ∧ x.toRat = some q ∧ 0 ≤ q ∧
      (q ≤ 100 ↔ 200 * part ≤ 201 * whole) := by
  have hlt : nearest (nearest ((part : ℚ) / whole) * 100) < 201 / 2 ↔ 200 * part ≤ 201 * whole :=
    percent_lt_iff hwhole hpos
  unfold maxLength at hpart hwhole
  have hx : 0 ≤ (part : ℚ) / whole := by positivity
  have hupper := (percent_bounds hx).2
  have hnonneg : 0 ≤ nearest (nearest ((part : ℚ) / whole) * 100) :=
    Binary64.nearest_nonneg (mul_nonneg (Binary64.nearest_nonneg hx) (by norm_num))
  have hsize : (part : ℚ) / whole ≤ 2 ^ 32 := by
    rw [div_le_iff₀ (by exact_mod_cast hpos)]
    exact_mod_cast le_trans (by omega : part ≤ 2 ^ 32) (Nat.le_mul_of_pos_right _ hpos)
  have hbound : nearest (nearest ((part : ℚ) / whole) * 100) < 2 ^ 50 := by
    generalize (part : ℚ) / whole = x at *
    norm_num at hupper hsize ⊢
    linarith
  have hquotient := Binary64.toRat_div_ofInt
    (Binary64.toRat_ofInt_natCast (by omega : part < 2 ^ 53)) hpos (by omega)
  have hhundred : (Binary64.ofInt 100).toRat = some 100 :=
    Binary64.toRat_ofInt_natCast (by norm_num : 100 < 2 ^ 53)
  have hproduct : (((Binary64.ofInt part).div (.ofInt whole)).mul (.ofInt 100)).toRat =
      some (nearest (nearest ((part : ℚ) / whole) * 100)) := by
    rw [Binary64.mul_of_toRat hquotient hhundred]
    apply Binary64.toRat_ofSigned_of_lt
    rw [abs_of_nonneg hnonneg]
    refine hbound.trans ?_
    exact_mod_cast zpow_lt_zpow_right₀ (by norm_num : (1 : ℚ) < 2) (by norm_num : (50 : ℤ) < 1024)
  refine ⟨_, _, ?_, Binary64.toRat_toFixed_zero hproduct hnonneg hbound, ?_, ?_⟩
  · unfold percent quotient
    rw [if_neg hpos.ne']
    rfl
  · exact_mod_cast Int.floor_nonneg.mpr (by linarith)
  · rw [← hlt]
    have hfloor : ⌊nearest (nearest ((part : ℚ) / whole) * 100) + 1 / 2⌋ < 101 ↔
        nearest (nearest ((part : ℚ) / whole) * 100) + 1 / 2 < 101 := by
      rw [Int.floor_lt]
      norm_num
    constructor
    · intro h
      have hint : ⌊nearest (nearest ((part : ℚ) / whole) * 100) + 1 / 2⌋ ≤ 100 := by exact_mod_cast h
      linarith [hfloor.mp (by omega)]
    · intro h
      have hint := hfloor.mpr (by linarith)
      exact_mod_cast (by omega : ⌊nearest (nearest ((part : ℚ) / whole) * 100) + 1 / 2⌋ ≤ 100)

end Percent

/-! ## What is in range -/

def IsRate (x : Number) : Prop := Binary64.zero.le x = true ∧ x.le (.ofInt 100) = true

/-- The largest size of the numbers, at least 1. -/
def size (xs : List Number) : ℚ := xs.foldr (fun x m => max m |x.toRat.getD 0|) 1

/-- Half of the decimal place, and the rounding errors of the operations for an average. -/
def slack (xs : List Number) : ℚ := 1 / 20 + Binary64.drift (xs.length + 2) (size xs)

/-- The order of two numbers, up to the rounding of an average. -/
def AtMost (slack : ℚ) (x y : Number) : Prop :=
  match x.toRat, y.toRat with
  | some p, some q => p ≤ q + slack
  | _, _ => x.le y = true

def Found.scores (d : Found) : List Number :=
  (d.attempts.filter Attempt.isCompleted).map Attempt.scored

structure Report.InRange (scores : List Number) (r : Report) : Prop where
  passRate : IsRate r.overallStats.passRate
  sections : ∀ s ∈ r.sectionReports, IsRate s.passRate
  solvedRates : ∀ q ∈ r.questionReports, IsRate q.solvedRate
  overallSolvedRates : ∀ q ∈ r.questionReports, IsRate q.overallSolvedRate
  lowest : AtMost (slack scores) r.overallStats.lowestScore r.overallStats.avgScore
  highest : AtMost (slack scores) r.overallStats.avgScore r.overallStats.highestScore
  solved : ∀ q ∈ r.questionReports, q.solvedCount ≤ q.attemptCount

/-- Nothing is divided by zero, and a report is in range. -/
def InRange (role : Role) (d : Found) : Prop :=
  getAssessmentAnalytics role d ≠ .error .divisionByZero ∧
    ∀ r, getAssessmentAnalytics role d = .ok r → r.InRange d.scores

/-! ### Rates -/

theorem isRate_zero : IsRate .zero := by
  unfold IsRate
  decide +kernel

/-- **A rate of two counts** is always computed, and this is when it is in range. -/
theorem rate_spec {part whole : ℕ} (hpart : part ≤ maxLength) (hwhole : whole ≤ maxLength) :
    ∃ x, rate part whole = .ok x ∧ (IsRate x ↔ whole = 0 ∨ 200 * part ≤ 201 * whole) := by
  unfold rate
  split_ifs with hpos
  · obtain ⟨x, q, hx, hq, hnonneg, hle⟩ := percent_spec hpart hwhole hpos
    refine ⟨x, hx, ?_⟩
    have hzero : Binary64.zero.toRat = some 0 := rfl
    have hhundred : (Binary64.ofInt 100).toRat = some 100 :=
      Binary64.toRat_ofInt_natCast (by norm_num : 100 < 2 ^ 53)
    unfold IsRate
    rw [Binary64.le_of_toRat hzero hq, Binary64.le_of_toRat hq hhundred, ← hle]
    constructor
    · exact fun h => Or.inr h.2
    · rintro (h | h)
      · omega
      · exact ⟨hnonneg, h⟩
  · exact ⟨.zero, rfl, iff_of_true isRate_zero (Or.inl (by omega))⟩

/-- A rate of a part that is no larger than the whole. -/
theorem rate_of_le {part whole : ℕ} (h : part ≤ whole) (hwhole : whole ≤ maxLength) :
    ∃ x, rate part whole = .ok x ∧ IsRate x := by
  obtain ⟨x, hx, hrate⟩ := rate_spec (h.trans hwhole) hwhole
  exact ⟨x, hx, hrate.mpr (Or.inr (by omega))⟩

/-! ### Scores -/

/-- A fold that keeps the better one keeps a best one. -/
theorem pick_spec {α : Type} {R : α → α → Bool} {P : α → Prop}
    (htrans : ∀ x y z, R x y = true → R y z = true → R x z = true)
    (htotal : ∀ x y, P x → P y → R x y = true ∨ R y x = true) {m : α} (hm : P m) {xs : List α}
    (hxs : ∀ x ∈ xs, P x) :
    R m (xs.foldl (fun m x => if R m x then x else m) m) = true ∧
      (∀ x ∈ xs, R x (xs.foldl (fun m x => if R m x then x else m) m) = true) ∧
      (xs.foldl (fun m x => if R m x then x else m) m = m ∨
        xs.foldl (fun m x => if R m x then x else m) m ∈ xs) := by
  have hrefl : ∀ x, P x → R x x = true := fun x hx => (htotal x x hx hx).elim id id
  induction xs generalizing m with
  | nil => exact ⟨hrefl m hm, List.forall_mem_nil _, Or.inl rfl⟩
  | cons x xs ih =>
    obtain ⟨hx, hrest⟩ := List.forall_mem_cons.mp hxs
    rw [List.foldl_cons]
    by_cases h : R m x = true
    · rw [if_pos h]
      obtain ⟨hbest, hall, hmem⟩ := ih hx hrest
      refine ⟨htrans _ _ _ h hbest, List.forall_mem_cons.mpr ⟨hbest, hall⟩, Or.inr ?_⟩
      rcases hmem with hmem | hmem
      · rw [hmem]
        exact List.mem_cons_self
      · exact List.mem_cons_of_mem x hmem
    · rw [if_neg h]
      obtain ⟨hbest, hall, hmem⟩ := ih hm hrest
      have hxm : R x m = true := (htotal m x hm hx).resolve_left h
      refine ⟨hbest, List.forall_mem_cons.mpr ⟨htrans _ _ _ hxm hbest, hall⟩, ?_⟩
      exact hmem.imp_right (List.mem_cons_of_mem x)

theorem eq_of_le_bot {x : Number} (h : x.le (.inf true) = true) : x = .inf true := by
  rcases x with ⟨p, hp⟩ | _ | s | _
  · cases h
  · cases h
  · cases s with
    | true => rfl
    | false => cases h
  · cases h

theorem eq_of_top_le {x : Number} (h : (Binary64.inf false).le x = true) : x = .inf false := by
  rcases x with ⟨p, hp⟩ | _ | s | _
  · cases h
  · cases h
  · cases s with
    | true => cases h
    | false => rfl
  · cases h

section Extremes

variable {xs : List Number}

/-- The largest of some numbers. -/
theorem mathMax_spec (hne : xs ≠ []) (hnan : ∀ x ∈ xs, x ≠ .nan) :
    mathMax xs ∈ xs ∧ ∀ x ∈ xs, x.le (mathMax xs) = true := by
  obtain ⟨-, hall, hmem⟩ := pick_spec (R := fun m x : Number => m.le x) (P := fun x => x ≠ .nan)
    (fun _ _ _ => Binary64.le_trans_of_le) (fun _ _ => Binary64.le_total_of_ne_nan)
    (m := .inf true) Binary64.noConfusion hnan
  refine ⟨?_, hall⟩
  rcases hmem with h | h
  · obtain ⟨x, hx⟩ := List.exists_mem_of_ne_nil xs hne
    have hle := hall x hx
    rw [h] at hle
    have hmax : mathMax xs = .inf true := h
    rw [hmax, ← eq_of_le_bot hle]
    exact hx
  · exact h

/-- The smallest of some numbers. -/
theorem mathMin_spec (hne : xs ≠ []) (hnan : ∀ x ∈ xs, x ≠ .nan) :
    mathMin xs ∈ xs ∧ ∀ x ∈ xs, (mathMin xs).le x = true := by
  obtain ⟨-, hall, hmem⟩ := pick_spec (R := fun m x : Number => x.le m) (P := fun x => x ≠ .nan)
    (fun _ _ _ hxy hyz => Binary64.le_trans_of_le hyz hxy)
    (fun _ _ hx hy => Binary64.le_total_of_ne_nan hy hx)
    (m := .inf false) Binary64.noConfusion hnan
  refine ⟨?_, hall⟩
  rcases hmem with h | h
  · obtain ⟨x, hx⟩ := List.exists_mem_of_ne_nil xs hne
    have hle := hall x hx
    rw [h] at hle
    have hmin : mathMin xs = .inf false := h
    rw [hmin, ← eq_of_top_le hle]
    exact hx
  · exact h

theorem one_le_size (xs : List Number) : 1 ≤ size xs := by
  induction xs with
  | nil => exact le_refl _
  | cons x xs ih => exact ih.trans (le_max_left _ _)

theorem abs_le_size {x : Number} (hx : x ∈ xs) {q : ℚ} (hq : x.toRat = some q) :
    |q| ≤ size xs := by
  induction xs with
  | nil => cases hx
  | cons y xs ih =>
    rcases List.mem_cons.mp hx with rfl | hx
    · have hle : |x.toRat.getD 0| ≤ size (x :: xs) := le_max_right _ _
      rwa [hq] at hle
    · exact (ih hx).trans (le_max_left _ _)

end Extremes

/-- The sum is a number, and it is infinite only where a score is. -/
def NoOverflow (scores : List Number) : Prop :=
  sum scores ≠ .nan ∧ ((sum scores).toRat = none → sum scores ∈ scores)

/-- The mean of finite numbers is between any bounds of them. -/
theorem mean_bounds {xs : List Number} {qs : List ℚ}
    (hqs : List.Forall₂ (fun x q => x.toRat = some q) xs qs) {low high : ℚ}
    (hlow : ∀ x ∈ xs, ∀ q, x.toRat = some q → low ≤ q)
    (hhigh : ∀ x ∈ xs, ∀ q, x.toRat = some q → q ≤ high) :
    xs.length * low ≤ qs.sum ∧ qs.sum ≤ xs.length * high := by
  induction hqs with
  | nil => simp
  | @cons x q xs qs hx hrest ih =>
    obtain ⟨hl, hlow⟩ := List.forall_mem_cons.mp hlow
    obtain ⟨hh, hhigh⟩ := List.forall_mem_cons.mp hhigh
    obtain ⟨ihl, ihh⟩ := ih hlow hhigh
    rw [List.length_cons, List.sum_cons]
    push_cast
    constructor
    · linarith [hl q hx]
    · linarith [hh q hx]

theorem exists_toRat_of_forall₂ {xs : List Number} {qs : List ℚ}
    (hqs : List.Forall₂ (fun x q => x.toRat = some q) xs qs) {x : Number} (hx : x ∈ xs) :
    ∃ q, x.toRat = some q := by
  induction hqs with
  | nil => cases hx
  | cons hq _ ih =>
    rcases List.mem_cons.mp hx with rfl | hx
    · exact ⟨_, hq⟩
    · exact ih hx

theorem atMost_of_toRat {slack : ℚ} {x y : Number} {p q : ℚ} (hx : x.toRat = some p)
    (hy : y.toRat = some q) : AtMost slack x y ↔ p ≤ q + slack := by
  unfold AtMost
  rw [hx, hy]

theorem atMost_of_left {slack : ℚ} {x y : Number} (hx : x.toRat = none) :
    AtMost slack x y ↔ x.le y = true := by
  unfold AtMost
  rw [hx]

theorem atMost_of_right {slack : ℚ} {x y : Number} (hy : y.toRat = none) :
    AtMost slack x y ↔ x.le y = true := by
  unfold AtMost
  rw [hy]
  cases x.toRat <;> rfl

/-- The quotient of an infinity or of no number. -/
theorem average_of_toRat_none {x : Number} (hx : x.toRat = none) {n : ℕ} (hn : n < 2 ^ 53) :
    toFixed 1 (x.div (.ofInt n)) = x := by
  have hofInt := Binary64.toRat_ofInt_natCast hn
  have hsign : (Binary64.ofInt n).isNegative = false := by
    rw [Binary64.isNegative_ofInt (by rw [Nat.abs_cast]; exact_mod_cast hn)]
    exact decide_eq_false (by omega)
  have hdiv : x.div (.ofInt n) = x := by
    unfold Binary64.div
    rw [hx, hofInt, hsign]
    cases x with
    | finite q hq => cases hx
    | negZero => cases hx
    | inf s => cases s <;> rfl
    | nan => rfl
  rw [hdiv, Binary64.toFixed_of_toRat_none hx]

/-- **The average is in range**, unless the sum overflows. -/
theorem average_spec {xs : List Number} (hne : xs ≠ []) (hnan : ∀ x ∈ xs, x ≠ .nan)
    (hlength : xs.length ≤ maxLength) :
    ∃ x, average xs = .ok x ∧
      (AtMost (slack xs) (mathMin xs) x ∧ AtMost (slack xs) x (mathMax xs) ↔ NoOverflow xs) := by
  have hpos : 0 < xs.length := List.length_pos_iff.mpr hne
  unfold maxLength at hlength
  refine ⟨toFixed 1 ((sum xs).div (.ofInt xs.length)), ?_, ?_⟩
  · unfold average quotient
    rw [if_neg hpos.ne']
    rfl
  obtain ⟨hmin, hminle⟩ := mathMin_spec hne hnan
  obtain ⟨hmax, hlemax⟩ := mathMax_spec hne hnan
  cases hsum : (sum xs).toRat with
  | some r =>
    have hstart : Binary64.Near 0 0 ((0 : ℕ) * size xs) 0 0 := by
      apply Binary64.Near.refl
      simp
    obtain ⟨qs, hqs, hnear⟩ := Binary64.foldl_add_near (one_le_size xs)
      (fun x hx q hq => abs_le_size hx hq) (rfl : Binary64.zero.toRat = some 0) hstart hsum
    rw [zero_add, zero_add] at hnear
    have hmean := (hnear.div_natCast hpos).round (by norm_num) (one_le_size xs)
    have hquotient := Binary64.toRat_div_ofInt hsum hpos (by omega)
    obtain ⟨a, ha, hfixed⟩ : ∃ a, (toFixed 1 ((sum xs).div (.ofInt xs.length))).toRat = some a ∧
        Binary64.Near (1 / 2 / 10 ^ 1) (xs.length + 2) (size xs) a (qs.sum / xs.length) :=
      hmean.toFixed hquotient (one_le_size xs)
    obtain ⟨low, hlow⟩ := exists_toRat_of_forall₂ hqs hmin
    obtain ⟨high, hhigh⟩ := exists_toRat_of_forall₂ hqs hmax
    obtain ⟨hle, hge⟩ := mean_bounds hqs
      (fun x hx q hq => (Binary64.le_of_toRat hlow hq).mp (hminle x hx))
      (fun x hx q hq => (Binary64.le_of_toRat hq hhigh).mp (hlemax x hx))
    have hcast : (0 : ℚ) < xs.length := by exact_mod_cast hpos
    have hmeanLow : low ≤ qs.sum / xs.length := by
      rw [le_div_iff₀ hcast, mul_comm]
      exact hle
    have hmeanHigh : qs.sum / xs.length ≤ high := by
      rw [div_le_iff₀ hcast, mul_comm]
      exact hge
    have herror : |a - qs.sum / xs.length| ≤ slack xs := by
      unfold slack
      refine hfixed.error.trans (le_of_eq ?_)
      norm_num
    obtain ⟨hfrom, hto⟩ := abs_le.mp herror
    rw [atMost_of_toRat hlow ha, atMost_of_toRat ha hhigh]
    refine iff_of_true ⟨by linarith, by linarith⟩ ⟨?_, fun h => ?_⟩
    · intro hnan
      rw [hnan] at hsum
      cases hsum
    · rw [hsum] at h
      cases h
  | none =>
    rw [average_of_toRat_none hsum (by omega), atMost_of_right hsum, atMost_of_left hsum]
    unfold NoOverflow
    have hminNe := hnan _ hmin
    have hmaxNe := hnan _ hmax
    cases hs : sum xs with
    | finite q hq =>
      rw [hs] at hsum
      cases hsum
    | negZero =>
      rw [hs] at hsum
      cases hsum
    | nan =>
      refine iff_of_false (fun h => ?_) fun h => h.1 rfl
      exact (Binary64.le_iff_place.mp h.2).1 rfl
    | inf negative =>
      constructor
      · rintro ⟨hbelow, habove⟩
        refine ⟨Binary64.noConfusion, fun _ => ?_⟩
        cases negative with
        | true => exact eq_of_le_bot hbelow ▸ hmin
        | false => exact eq_of_top_le habove ▸ hmax
      · rintro ⟨-, hmem⟩
        exact ⟨hminle _ (hmem rfl), hlemax _ (hmem rfl)⟩

/-! ### The attempts as a whole -/

theorem scored_ne_nan (a : Attempt) : a.scored ≠ .nan := by
  unfold Attempt.scored numberOr
  cases a.score with
  | none => exact Binary64.noConfusion
  | some x =>
    simp only
    split_ifs with h
    · exact Binary64.noConfusion
    · intro hx
      exact h (Or.inr (by rw [hx]))

theorem completed_length (d : Found) :
    (d.attempts.filter Attempt.isCompleted).length ≤ maxLength :=
  (List.length_filter_le _ _).trans d.attempts_length

theorem overallStats_spec (d : Found) (maxPossible : Number) :
    ∃ o, overallStats d maxPossible = .ok o ∧ IsRate o.passRate ∧
      (AtMost (slack d.scores) o.lowestScore o.avgScore ∧
        AtMost (slack d.scores) o.avgScore o.highestScore ↔ NoOverflow d.scores) := by
  have hlength := completed_length d
  unfold overallStats
  by_cases hpos : (d.attempts.filter Attempt.isCompleted).length > 0
  · have hne : d.scores ≠ [] := by
      unfold Found.scores
      rw [ne_eq, List.map_eq_nil_iff]
      exact List.length_pos_iff.mp hpos
    have hnan : ∀ x ∈ d.scores, x ≠ .nan := by
      intro x hx
      obtain ⟨a, -, rfl⟩ := List.mem_map.mp hx
      exact scored_ne_nan a
    obtain ⟨x, hx, hrange⟩ := average_spec hne hnan (by
      unfold Found.scores
      rwa [List.length_map])
    obtain ⟨y, hy, hrate⟩ := rate_of_le (List.length_filter_le (Attempt.passes maxPossible)
      (d.attempts.filter Attempt.isCompleted)) hlength
    unfold rate at hy
    rw [if_pos hpos] at hy
    have haverage : average ((d.attempts.filter Attempt.isCompleted).map Attempt.scored) = .ok x := hx
    simp only [if_pos hpos, haverage, hy]
    exact ⟨_, rfl, hrate, hrange⟩
  · have hnil : d.scores = [] := by
      unfold Found.scores
      rw [List.map_eq_nil_iff]
      exact List.eq_nil_of_length_eq_zero (by omega)
    rw [hnil]
    simp only [if_neg hpos]
    refine ⟨_, rfl, isRate_zero, ?_⟩
    have hslack : (0 : ℚ) ≤ slack [] := by
      unfold slack
      have hdrift : 0 ≤ Binary64.drift (([] : List Number).length + 2) (size []) :=
        Binary64.drift_nonneg (zero_le_one.trans (one_le_size []))
      linarith
    have hzero : Binary64.zero.toRat = some 0 := rfl
    rw [atMost_of_toRat hzero hzero]
    refine iff_of_true ⟨by linarith, by linarith⟩ ⟨Binary64.noConfusion, fun h => ?_⟩
    cases h

/-! ### Lists of reports -/

section Collect

variable {α β : Type} {f : α → Except Failure β} {R : α → β → Prop} {xs : List α}

theorem collect_ok (h : ∀ x ∈ xs, ∃ y, f x = .ok y ∧ R x y) :
    ∃ ys, collect f xs = .ok ys ∧ List.Forall₂ R xs ys := by
  induction xs with
  | nil => exact ⟨[], rfl, .nil⟩
  | cons x xs ih =>
    obtain ⟨⟨y, hy, hR⟩, hrest⟩ := List.forall_mem_cons.mp h
    obtain ⟨ys, hys, hRs⟩ := ih hrest
    refine ⟨y :: ys, ?_, .cons hR hRs⟩
    simp only [collect, hy, hys]
    rfl

/-- A failure is the one of some element. -/
theorem collect_error {e : Failure} (h : collect f xs = .error e) : ∃ x ∈ xs, f x = .error e := by
  induction xs with
  | nil => cases h
  | cons x xs ih =>
    rw [collect] at h
    cases hx : f x with
    | error e' =>
      simp only [hx] at h
      obtain rfl := Except.error.inj h
      exact ⟨x, List.mem_cons_self, hx⟩
    | ok y =>
      simp only [hx] at h
      cases hxs : collect f xs with
      | error e' =>
        rw [hxs] at h
        obtain rfl := Except.error.inj h
        obtain ⟨x', hx', he⟩ := ih hxs
        exact ⟨x', List.mem_cons_of_mem x hx', he⟩
      | ok ys =>
        rw [hxs] at h
        cases h

theorem forall_of_collect_ok {ys : List β} (h : collect f xs = .ok ys) :
    ∀ x ∈ xs, ∃ y, f x = .ok y := by
  induction xs generalizing ys with
  | nil => exact List.forall_mem_nil _
  | cons x xs ih =>
    rw [collect] at h
    cases hx : f x with
    | error e =>
      simp only [hx] at h
      cases h
    | ok y =>
      simp only [hx] at h
      cases hxs : collect f xs with
      | error e =>
        rw [hxs] at h
        cases h
      | ok ys => exact List.forall_mem_cons.mpr ⟨⟨y, hx⟩, ih hxs⟩

theorem forall₂_right {P : β → Prop} {ys : List β} (h : List.Forall₂ R xs ys)
    (hP : ∀ x ∈ xs, ∀ y, R x y → P y) : ∀ y ∈ ys, P y := by
  induction h with
  | nil => exact List.forall_mem_nil _
  | cons hR _ ih =>
    obtain ⟨hx, hrest⟩ := List.forall_mem_cons.mp hP
    exact List.forall_mem_cons.mpr ⟨hx _ hR, ih hrest⟩

theorem forall₂_left {P : α → Prop} {ys : List β} (h : List.Forall₂ R xs ys)
    (hP : ∀ y ∈ ys, ∀ x, R x y → P x) : ∀ x ∈ xs, P x := by
  induction h with
  | nil => exact List.forall_mem_nil _
  | cons hR _ ih =>
    obtain ⟨hy, hrest⟩ := List.forall_mem_cons.mp hP
    exact List.forall_mem_cons.mpr ⟨hy _ hR, ih hrest⟩

end Collect

/-! ### Sections -/

/-- Nobody passes who did not submit, and nobody submits more than `n` times. -/
def SectionStats.Sound (n : ℕ) (s : SectionStats) : Prop :=
  s.passedCount ≤ s.submitted ∧ s.submitted ≤ n

section Sections

variable {n : ℕ} {maxPossible : Number} {stats stats' : List SectionStats}

theorem forall_upsert {P Q : SectionStats → Prop} {sec : String} {f : SectionStats → SectionStats}
    (hblank : Q (f { section_ := sec })) (hf : ∀ s, P s → Q (f s)) (hkeep : ∀ s, P s → Q s)
    (h : ∀ s ∈ stats, P s) : ∀ s ∈ upsert sec f stats, Q s := by
  induction stats with
  | nil => exact List.forall_mem_singleton.mpr hblank
  | cons s stats ih =>
    obtain ⟨hs, hrest⟩ := List.forall_mem_cons.mp h
    rw [upsert]
    split_ifs
    · exact List.forall_mem_cons.mpr ⟨hf s hs, fun t ht => hkeep t (hrest t ht)⟩
    · exact List.forall_mem_cons.mpr ⟨hkeep s hs, ih hrest⟩

theorem SectionStats.Sound.succ {s : SectionStats} (h : s.Sound n) : s.Sound (n + 1) :=
  ⟨h.1, h.2.trans (Nat.le_succ n)⟩

theorem SectionStats.Sound.count {s : SectionStats} (h : s.Sound n) (maxPossible : Number)
    (a : Attempt) : (s.count maxPossible a).Sound (n + 1) := by
  obtain ⟨hpassed, hsubmitted⟩ := h
  unfold SectionStats.count SectionStats.Sound
  cases a.isCompleted with
  | false => exact ⟨hpassed, hsubmitted.trans (Nat.le_succ n)⟩
  | true =>
    simp only [Bool.true_and, if_true]
    split_ifs <;> omega

/-- The section of a completed attempt is not an inherited name. -/
def Attempt.Named (a : Attempt) : Prop :=
  a.isCompleted = true → ∀ s, a.studentId = some s → s.sectionName ∉ Billing.inherited

theorem countAttempt_cases (a : Attempt) (stats : List SectionStats) :
    (countAttempt maxPossible stats a = .error .typeError ∧ ¬a.Named) ∨
      ∃ stats', countAttempt maxPossible stats a = .ok stats' ∧ a.Named ∧
        ((∀ s ∈ stats, s.Sound n) → ∀ s ∈ stats', s.Sound (n + 1)) := by
  have hsame : (∀ s ∈ stats, s.Sound n) → ∀ s ∈ stats, s.Sound (n + 1) :=
    fun h s hs => (h s hs).succ
  unfold countAttempt Attempt.Named
  cases hstudent : a.studentId with
  | none =>
    refine Or.inr ⟨stats, rfl, ?_, hsame⟩
    rintro - s ⟨⟩
  | some student =>
    simp only
    split_ifs with hinherited hcompleted
    · exact Or.inl ⟨rfl, fun h => h hcompleted student rfl hinherited⟩
    · exact Or.inr ⟨stats, rfl, fun h => absurd h hcompleted, hsame⟩
    · refine Or.inr ⟨_, rfl, ?_, fun h => ?_⟩
      · rintro - s hs
        rwa [← Option.some.inj hs]
      · apply forall_upsert _ (fun s hs => hs.count maxPossible a) (fun s hs => hs.succ) h
        exact SectionStats.Sound.count ⟨le_refl 0, Nat.zero_le n⟩ maxPossible a

theorem countAttempts_cases (attempts : List Attempt) (stats : List SectionStats) :
    (countAttempts maxPossible stats attempts = .error .typeError ∧ ¬∀ a ∈ attempts, a.Named) ∨
      ∃ stats', countAttempts maxPossible stats attempts = .ok stats' ∧
        (∀ a ∈ attempts, a.Named) ∧
        ((∀ s ∈ stats, s.Sound n) → ∀ s ∈ stats', s.Sound (n + attempts.length)) := by
  induction attempts generalizing stats n with
  | nil => exact Or.inr ⟨stats, rfl, List.forall_mem_nil _, id⟩
  | cons a attempts ih =>
    rw [countAttempts, List.forall_mem_cons]
    rcases countAttempt_cases (n := n) a stats with ⟨herror, hnamed⟩ | ⟨stats₁, hok, hnamed, hsound⟩
    · exact Or.inl ⟨by rw [herror], fun h => hnamed h.1⟩
    · simp only [hok]
      rcases ih (n := n + 1) stats₁ with ⟨herror, hrest⟩ | ⟨stats', hok', hrest, hsound'⟩
      · exact Or.inl ⟨herror, fun h => hrest h.2⟩
      · refine Or.inr ⟨stats', hok', ⟨hnamed, hrest⟩, fun h => ?_⟩
        rw [List.length_cons, Nat.add_comm attempts.length 1, ← Nat.add_assoc]
        exact hsound' (hsound h)

theorem countStudent_sound (attempts : List Attempt) (student : Student)
    (h : ∀ s ∈ stats, s.Sound n) : ∀ s ∈ countStudent attempts stats student, s.Sound n := by
  unfold countStudent
  split_ifs
  · exact h
  · exact forall_upsert ⟨le_refl 0, Nat.zero_le n⟩ (fun s hs => hs) (fun s hs => hs) h

theorem countStudents_sound (attempts : List Attempt) (students : List Student)
    (h : ∀ s ∈ stats, s.Sound n) :
    ∀ s ∈ students.foldl (countStudent attempts) stats, s.Sound n := by
  induction students generalizing stats with
  | nil => exact h
  | cons student students ih => exact ih (countStudent_sound attempts student h)

theorem mem_of_mem_values {s : SectionStats} (h : s ∈ values stats) : s ∈ stats := by
  unfold values JsValue.listed at h
  obtain ⟨m, hm, rfl⟩ := List.mem_map.mp h
  have hmem : m ∈ stats.map fun s => (s.section_, s) := by
    rcases List.mem_append.mp hm with hm | hm
    · exact List.mem_of_mem_filter ((List.perm_insertionSort _ _).mem_iff.mp hm)
    · exact List.mem_of_mem_filter hm
  obtain ⟨t, ht, rfl⟩ := List.mem_map.mp hmem
  exact ht

theorem sectionReport_spec {s : SectionStats} (h : s.Sound n) (hn : n ≤ maxLength) :
    ∃ r, sectionReport s = .ok r ∧ IsRate r.passRate := by
  obtain ⟨x, hx, hrate⟩ := rate_of_le h.1 (h.2.trans hn)
  have haverage : ∃ y, (if s.scores.length > 0 then average s.scores else .ok .zero) = .ok y := by
    split_ifs with hpos
    · unfold average quotient
      rw [if_neg (by omega : ¬s.scores.length = 0)]
      exact ⟨_, rfl⟩
    · exact ⟨_, rfl⟩
  obtain ⟨y, hy⟩ := haverage
  unfold sectionReport
  simp only [hy, hx]
  exact ⟨_, rfl, hrate⟩

/-- **The reports of the sections**: their rates are in range. -/
theorem sectionReports_cases (d : Found) (maxPossible : Number) :
    (sectionReports d maxPossible = .error .typeError ∧ ¬∀ a ∈ d.attempts, a.Named) ∨
      ∃ rs, sectionReports d maxPossible = .ok rs ∧ (∀ a ∈ d.attempts, a.Named) ∧
        ∀ r ∈ rs, IsRate r.passRate := by
  unfold sectionReports
  rcases @countAttempts_cases 0 maxPossible d.attempts [] with
    ⟨herror, hnamed⟩ | ⟨stats, hok, hnamed, hsound⟩
  · exact Or.inl ⟨by rw [herror], hnamed⟩
  · rw [Nat.zero_add] at hsound
    have hall := countStudents_sound d.attempts d.students (hsound (List.forall_mem_nil _))
    obtain ⟨rs, hrs, hrates⟩ := collect_ok (R := fun _ (r : SectionReport) => IsRate r.passRate)
      fun s hs => sectionReport_spec (hall s (mem_of_mem_values hs)) d.attempts_length
    simp only [hok]
    exact Or.inr ⟨rs, hrs, hnamed, forall₂_right hrates fun _ _ r hr => hr⟩

end Sections

/-! ### Questions -/

/-- The number of students with a successful submission for a problem. -/
def Found.solvers (d : Found) (problemId : ObjectId) : ℕ :=
  setSize ((d.submissions.filter fun s => s.problemId = problemId ∧ s.status = .success).map
    Submission.userId)

theorem setSize_le_of_subset {xs ys : List ObjectId} (h : xs ⊆ ys) : setSize xs ≤ setSize ys := by
  unfold setSize
  apply List.Subperm.length_le
  apply List.subperm_of_subset (List.nodup_dedup xs)
  intro x hx
  exact List.mem_dedup.mpr (h (List.mem_dedup.mp hx))

theorem setSize_le_length (xs : List ObjectId) : setSize xs ≤ xs.length :=
  (List.dedup_sublist xs).length_le

/-- **The report of a question**: when its rates are in range. -/
theorem questionReport_spec (d : Found) {p : AssessmentProblem} {problem : Problem}
    (hproblem : p.problemId = some problem) {completed : ℕ} (hcompleted : completed ≤ maxLength) :
    ∃ q, questionReport completed d.submissions p = .ok q ∧ q.solvedCount ≤ q.attemptCount ∧
      IsRate q.solvedRate ∧ (IsRate q.overallSolvedRate ↔
        completed = 0 ∨ 200 * d.solvers problem.id ≤ 201 * completed) := by
  have hsolvers : d.solvers problem.id =
      setSize (((d.submissions.filter fun s => s.problemId = problem.id).filter fun s =>
        s.status = .success).map Submission.userId) := by
    unfold Found.solvers
    rw [List.filter_filter]
    congr 3
    funext s
    rw [Bool.and_comm]
    exact Bool.decide_and _ _
  have hle : d.solvers problem.id ≤
      setSize ((d.submissions.filter fun s => s.problemId = problem.id).map Submission.userId) := by
    rw [hsolvers]
    exact setSize_le_of_subset (List.map_subset _ List.filter_sublist.subset)
  have hattempted : setSize ((d.submissions.filter fun s => s.problemId = problem.id).map
      Submission.userId) ≤ maxLength := by
    refine (setSize_le_length _).trans ?_
    rw [List.length_map]
    exact (List.length_filter_le _ _).trans d.submissions_length
  obtain ⟨x, hx, hrate⟩ := rate_of_le hle hattempted
  obtain ⟨y, hy, hoverall⟩ := rate_spec (hle.trans hattempted) hcompleted
  rw [hsolvers] at hx hy
  unfold questionReport
  simp only [hproblem, hx, hy]
  exact ⟨_, rfl, hsolvers ▸ hle, hrate, hoverall⟩

theorem questionReport_error {d : Found} {p : AssessmentProblem} {e : Failure}
    (h : questionReport (d.attempts.filter Attempt.isCompleted).length d.submissions p = .error e) :
    e ≠ .divisionByZero := by
  cases hproblem : p.problemId with
  | none =>
    unfold questionReport at h
    rw [hproblem] at h
    rw [← Except.error.inj h]
    exact Failure.noConfusion
  | some problem =>
    obtain ⟨q, hq, -⟩ := questionReport_spec d hproblem (completed_length d)
    cases h.symm.trans hq

/-! ## When the analytics are in range -/

/-- The call comes to a report. -/
structure Answered (role : Role) (d : Found) (x : Assessment) : Prop where
  role : role ≠ .student
  assessment : d.assessment = some x
  problems : ∀ p ∈ x.problems, p.problemId.isSome = true
  named : ∀ a ∈ d.attempts, a.Named

/-- No problem was solved by more than 201 students for every 200 completed attempts, where
there are any, and the sum of the scores does not overflow. -/
structure Regular (d : Found) (x : Assessment) : Prop where
  solvers : ∀ p ∈ x.problems, ∀ problem, p.problemId = some problem →
    (d.attempts.filter Attempt.isCompleted).length = 0 ∨
      200 * d.solvers problem.id ≤ 201 * (d.attempts.filter Attempt.isCompleted).length
  sum : NoOverflow d.scores

/-- A call comes to a report, or to an error that is no division by zero. -/
theorem analytics_cases (role : Role) (d : Found) :
    (∃ x r, Answered role d x ∧ getAssessmentAnalytics role d = .ok r ∧
      (r.InRange d.scores ↔ Regular d x)) ∨
      (∀ x, ¬Answered role d x) ∧
        ∃ e, getAssessmentAnalytics role d = .error e ∧ e ≠ .divisionByZero := by
  unfold getAssessmentAnalytics
  by_cases hrole : role = .student
  · rw [if_pos hrole]
    exact Or.inr ⟨fun x h => h.role hrole, _, rfl, Failure.noConfusion⟩
  rw [if_neg hrole]
  cases hassessment : d.assessment with
  | none =>
    refine Or.inr ⟨fun x h => ?_, _, rfl, Failure.noConfusion⟩
    cases hassessment.symm.trans h.assessment
  | some assessment =>
    have hunique : ∀ x, Answered role d x → x = assessment := fun x h =>
      Option.some.inj (h.assessment.symm.trans hassessment)
    obtain ⟨o, ho, hpass, haverage⟩ := overallStats_spec d (maxPossibleScore assessment)
    simp only [ho]
    rcases sectionReports_cases d (maxPossibleScore assessment) with
      ⟨herror, hnamed⟩ | ⟨rs, hrs, hnamed, hrates⟩
    · simp only [herror]
      exact Or.inr ⟨fun x h => hnamed h.named, _, rfl, Failure.noConfusion⟩
    simp only [hrs]
    by_cases hproblems : ∀ p ∈ assessment.problems, p.problemId.isSome = true
    · let R (p : AssessmentProblem) (q : QuestionReport) : Prop :=
        q.solvedCount ≤ q.attemptCount ∧ IsRate q.solvedRate ∧ (IsRate q.overallSolvedRate ↔
          ∀ problem, p.problemId = some problem →
            (d.attempts.filter Attempt.isCompleted).length = 0 ∨ 200 * d.solvers problem.id ≤
              201 * (d.attempts.filter Attempt.isCompleted).length)
      obtain ⟨qs, hqs, hall⟩ := collect_ok (R := R) fun p hp => by
        obtain ⟨problem, hproblem⟩ := Option.isSome_iff_exists.mp (hproblems p hp)
        obtain ⟨q, hq, hsolved, hrate, hoverall⟩ :=
          questionReport_spec d hproblem (completed_length d)
        refine ⟨q, hq, hsolved, hrate, hoverall.trans ⟨fun h other hother => ?_, fun h =>
          h problem hproblem⟩⟩
        rwa [← Option.some.inj (hproblem.symm.trans hother)]
      rw [hqs]
      refine Or.inl ⟨assessment, _, ⟨hrole, hassessment, hproblems, hnamed⟩, rfl, ?_⟩
      constructor
      · intro h
        refine ⟨forall₂_left hall fun q hq p hR => hR.2.2.mp (h.overallSolvedRates q hq), ?_⟩
        exact haverage.mp ⟨h.lowest, h.highest⟩
      · intro h
        obtain ⟨hlowest, hhighest⟩ := haverage.mpr h.sum
        exact {
          passRate := hpass
          sections := hrates
          solvedRates := forall₂_right hall fun p _ q hR => hR.2.1
          overallSolvedRates := forall₂_right hall fun p hp q hR => hR.2.2.mpr (h.solvers p hp)
          lowest := hlowest
          highest := hhighest
          solved := forall₂_right hall fun p _ q hR => hR.1 }
    · refine Or.inr ⟨fun x h => hproblems (hunique x h ▸ h.problems), ?_⟩
      cases hcollect : collect (questionReport (d.attempts.filter Attempt.isCompleted).length
          d.submissions) assessment.problems with
      | error e =>
        obtain ⟨p, -, hp⟩ := collect_error hcollect
        exact ⟨e, rfl, questionReport_error hp⟩
      | ok qs =>
        refine absurd (fun p hp => ?_) hproblems
        obtain ⟨q, hq⟩ := forall_of_collect_ok hcollect p hp
        cases hproblem : p.problemId with
        | some problem => rfl
        | none =>
          unfold questionReport at hq
          rw [hproblem] at hq
          cases hq

/-- **When the analytics are in range**: nowhere a division by zero, and for every call that
comes to a report no problem with too many solvers and no sum that overflows. -/
theorem analytics_in_range_iff (role : Role) (d : Found) :
    InRange role d ↔ ∀ x, Answered role d x → Regular d x := by
  unfold InRange
  rcases analytics_cases role d with ⟨x, r, hanswered, hok, hrange⟩ | ⟨hnone, e, herror, hne⟩
  · rw [hok]
    constructor
    · rintro ⟨-, h⟩ y hy
      obtain rfl := Option.some.inj (hanswered.assessment.symm.trans hy.assessment)
      exact hrange.mp (h r rfl)
    · intro h
      constructor
      · rintro ⟨⟩
      · intro r' hr'
        rw [← Except.ok.inj hr']
        exact hrange.mpr (h x hanswered)
  · rw [herror]
    refine iff_of_true ⟨fun h => hne (Except.error.inj h), fun r hr => ?_⟩ fun x hx =>
      absurd hx (hnone x)
    cases hr

/-- Two students solve a problem, and one of them has submitted the attempt. -/
def twoSolvers : Found where
  assessment := some ⟨"a", "Exam", .zero, .zero, [⟨some ⟨"p", none, none⟩, none⟩]⟩
  students := []
  attempts := [⟨some ⟨"ann", none⟩, .submitted, some (.ofInt 100)⟩,
    ⟨some ⟨"bob", none⟩, .active, some .zero⟩]
  submissions := [⟨"p", "ann", .success⟩, ⟨"p", "bob", .success⟩]
  attempts_length := by decide
  submissions_length := by decide

/-- **A rate of two hundred percent.** -/
theorem analytics_in_range_fails : ¬InRange .faculty twoSolvers := by
  have hanswered : ∀ x, twoSolvers.assessment = some x → Answered .faculty twoSolvers x := by
    intro x hx
    obtain rfl := Option.some.inj hx
    exact ⟨by decide, rfl, by decide, by unfold Attempt.Named; decide⟩
  intro h
  rcases analytics_cases .faculty twoSolvers with ⟨x, r, hx, hok, hrange⟩ | ⟨hnone, -⟩
  · have hregular := hrange.mp (h.2 r hok)
    obtain rfl := Option.some.inj hx.assessment
    have hsolvers := hregular.solvers _ List.mem_cons_self _ rfl
    exact absurd hsolvers (by decide +kernel)
  · exact hnone _ (hanswered _ rfl)

example : ((getAssessmentAnalytics .faculty twoSolvers).toOption.map fun r =>
    r.questionReports.map QuestionReport.overallSolvedRate) = some [.ofInt 200] := by decide +kernel

end Analytics
