/-
# When an attempt expires

The assessments service and the submissions service each compute the expiration time of
an attempt, as the earlier of a bound relative to its start and the end of the assessment,
both shifted by the grace time.  They round the sums in different orders, build the dates
before and after they compare, and compare the clock with `>` and with `>=`.

* `SameExpiry` : one expiration time, and one verdict at an instant.
* `sameExpiry_iff` : when the services have one notion of expiry.
* `sameExpiry_of_wholeMinutes` : in whole minutes, always but at the expiration time itself.
-/
import JudgePlatform.Library.ExactIntegers
import JudgePlatform.Library.Expansion
import JudgePlatform.Api.Submissions

namespace Api

/-! ## Dates -/

/-- Rounding towards zero. -/
def truncate (q : ℚ) : ℤ := if 0 ≤ q then ⌊q⌋ else ⌈q⌉

theorem abs_truncate_le (q : ℚ) : |(truncate q : ℚ)| ≤ |q| := by
  unfold truncate
  split_ifs with hq
  · have hfloor : (0 : ℚ) ≤ ⌊q⌋ := by exact_mod_cast Int.floor_nonneg.mpr hq
    rw [abs_of_nonneg hfloor, abs_of_nonneg hq]
    exact Int.floor_le q
  · have hneg : q ≤ 0 := (not_le.mp hq).le
    have hceil : (⌈q⌉ : ℚ) ≤ 0 := by exact_mod_cast Int.ceil_le.mpr (by exact_mod_cast hneg)
    rw [abs_of_nonpos hceil, abs_of_nonpos hneg]
    linarith [Int.le_ceil q]

/-- The greatest time value, 100 million days from the epoch. -/
def maxTime : ℤ := 8640000000000000

/-- The time value that a number of milliseconds gives a date, if any. -/
def timeClip (x : Number) : Option ℤ :=
  x.toRat.bind fun q => if |q| ≤ maxTime then some (truncate q) else none

/-- A date from its time value; without one it is invalid. -/
def dateOf (t : Option ℤ) : Date := t.elim .nan .ofInt

theorem newDate_eq (x : Number) : newDate x = dateOf (timeClip x) := by
  unfold newDate timeClip
  cases x.toRat with
  | none => rfl
  | some q =>
    show (if |q| ≤ maxTime then Binary64.ofInt (truncate q) else .nan) =
      dateOf (if |q| ≤ maxTime then some (truncate q) else none)
    split_ifs
    · rfl
    · rfl

theorem abs_le_of_timeClip {x : Number} {n : ℤ} (h : timeClip x = some n) : |n| ≤ maxTime := by
  obtain ⟨q, -, hq⟩ := Option.bind_eq_some_iff.mp h
  split_ifs at hq with hle
  obtain rfl := Option.some.inj hq
  have htrunc : |(truncate q : ℚ)| ≤ maxTime := le_trans (abs_truncate_le q) hle
  exact_mod_cast htrunc

/-- A time value is far from the end of the exact integers. -/
theorem abs_lt_of_le_maxTime {n : ℤ} (h : |n| ≤ maxTime) : |n| < 2 ^ 53 :=
  lt_of_le_of_lt h (by decide)

theorem timeClip_ofInt {n : ℤ} (h : |n| ≤ maxTime) : timeClip (.ofInt n) = some n := by
  have hle : |(n : ℚ)| ≤ maxTime := by exact_mod_cast h
  unfold timeClip
  rw [Binary64.ofInt_of_abs_lt (abs_lt_of_le_maxTime h), Binary64.toRat, Option.bind_some,
    if_pos hle]
  unfold truncate
  rw [Int.floor_intCast, Int.ceil_intCast, ite_self]

/-- Equal dates have equal time values. -/
theorem dateOf_inj {t u : Option ℤ} (ht : ∀ n, t = some n → |n| ≤ maxTime)
    (hu : ∀ n, u = some n → |n| ≤ maxTime) : dateOf t = dateOf u ↔ t = u := by
  constructor
  · intro h
    cases t with
    | none =>
      cases u with
      | none => rfl
      | some n => exact absurd h.symm (Binary64.ofInt_ne_nan (abs_lt_of_le_maxTime (hu n rfl)))
    | some m =>
      cases u with
      | none => exact absurd h (Binary64.ofInt_ne_nan (abs_lt_of_le_maxTime (ht m rfl)))
      | some n =>
        rw [(Binary64.ofInt_inj (abs_lt_of_le_maxTime (ht m rfl))
          (abs_lt_of_le_maxTime (hu n rfl))).mp h]
  · intro h
    rw [h]

theorem eq_dateOf {now : Date} {t : Option ℤ} :
    now.eq (dateOf t) = true ↔ ∃ n, t = some n ∧ now.eq (.ofInt n) = true := by
  cases t with
  | none =>
    have hnan : now.eq (dateOf none) = false := by cases now <;> rfl
    simp [hnan]
  | some n => simp [dateOf]

/-- The earlier of two dates, as the comparison of dates finds it: without a second date
there is none. -/
def earlier (relative absolute : Option ℤ) : Option ℤ :=
  absolute.map fun y => relative.elim y fun x => min x y

theorem earlier_dateOf {t u : Option ℤ} (ht : ∀ n, t = some n → |n| ≤ maxTime)
    (hu : ∀ n, u = some n → |n| ≤ maxTime) :
    (if (dateOf t).lt (dateOf u) then dateOf t else dateOf u) = dateOf (earlier t u) := by
  cases u with
  | none =>
    have hlt : (dateOf t).lt (dateOf none) = false := by
      show Binary64.lt (dateOf t) .nan = false
      cases dateOf t <;> rfl
    rw [hlt]
    rfl
  | some y =>
    cases t with
    | none => rfl
    | some x =>
      show (if (Binary64.ofInt x).lt (.ofInt y) then Binary64.ofInt x else .ofInt y) =
        .ofInt (min x y)
      rw [Binary64.lt_ofInt (abs_lt_of_le_maxTime (ht x rfl)) (abs_lt_of_le_maxTime (hu y rfl))]
      by_cases hxy : x < y
      · rw [decide_eq_true hxy, if_pos rfl, min_eq_left hxy.le]
      · rw [decide_eq_false hxy, min_eq_right (not_lt.mp hxy)]
        rfl

theorem abs_le_of_earlier {x y : Number} {n : ℤ}
    (h : earlier (timeClip x) (timeClip y) = some n) : |n| ≤ maxTime := by
  unfold earlier at h
  obtain ⟨v, hv, hn⟩ := Option.map_eq_some_iff.mp h
  have hle : |v| ≤ maxTime := abs_le_of_timeClip hv
  cases hu : timeClip x with
  | none =>
    rw [hu] at hn
    obtain rfl : v = n := hn
    exact hle
  | some u =>
    rw [hu] at hn
    obtain rfl : min u v = n := hn
    rcases min_choice u v with hmin | hmin
    · rw [hmin]
      exact abs_le_of_timeClip hu
    · rw [hmin]
      exact hle

/-! ## The two bounds -/

/-- The milliseconds that the expiration time is the earlier of. -/
structure Bounds where
  relative : Number
  absolute : Number

/-- The minutes in milliseconds at once, and added to each other before the start. -/
def boundsAtOnce (start duration grace finish : Number) : Bounds where
  relative := start.add ((duration.mul minuteMs).add (grace.mul minuteMs))
  absolute := finish.add (grace.mul minuteMs)

/-- Minutes in seconds in milliseconds. -/
def bySeconds (minutes : Number) : Number := (minutes.mul (.ofInt 60)).mul (.ofInt 1000)

/-- The minutes in milliseconds by way of seconds, and added to the start one by one. -/
def boundsBySeconds (start duration grace finish : Number) : Bounds where
  relative := (start.add (bySeconds duration)).add (bySeconds grace)
  absolute := finish.add (bySeconds grace)

section Times

variable (attempt : Attempt) (assessment : Assessment)

/-- The bounds of the assessments service. -/
def assessmentBounds : Bounds :=
  boundsAtOnce attempt.startedAt assessment.durationMinutes (orZero attempt.graceMinutes)
    assessment.endTime

/-- The bounds of the submissions service. -/
def submissionBounds : Bounds :=
  boundsBySeconds attempt.startedAt assessment.durationMinutes (orZero attempt.graceMinutes)
    assessment.endTime

theorem getExpirationTime_eq :
    getExpirationTime attempt assessment =
      dateOf (earlier (timeClip (assessmentBounds attempt assessment).relative)
        (timeClip (assessmentBounds attempt assessment).absolute)) := by
  rw [← earlier_dateOf (fun _ => abs_le_of_timeClip) fun _ => abs_le_of_timeClip, ← newDate_eq,
    ← newDate_eq]
  rfl

theorem getAttemptExpiration_eq :
    getAttemptExpiration attempt assessment =
      dateOf (timeClip (minNumber (submissionBounds attempt assessment).relative
        (submissionBounds attempt assessment).absolute)) :=
  newDate_eq _

end Times

/-! ## The verdicts -/

/-- The verdict that the assessments service acts on. -/
def pastExpiration (attempt : Attempt) (assessment : Assessment) (now : Date) : Bool :=
  (getExpirationTime attempt assessment).lt now

/-- The verdict that the submissions service acts on. -/
def reachedExpiration (attempt : Attempt) (assessment : Assessment) (now : Date) : Bool :=
  (getAttemptExpiration attempt assessment).le now

section Verdicts

variable (c : Choice) {s : Store} {attempt : Attempt} {assessment : Assessment}

theorem eval_isAttemptExpired :
    ((isAttemptExpired attempt assessment).eval (answer c) s).1 =
      .ok (pastExpiration attempt assessment s.clock) := rfl

theorem eval_ask {α : Type} {r : Request} {x : Reply r} {t : Store} (f : Reply r → Task α)
    (h : answer c s r = (.ok x, t)) :
    (ask r >>= f).eval (answer c) s = (f x).eval (answer c) t := by
  rw [Program.eval_call_bind, h]

theorem require_bind {α : Type} {p : Prop} [Decidable p] (e : ServiceError) (f : Unit → Task α)
    (h : p) : (require p e >>= f) = f () := by
  unfold require
  rw [if_pos h]
  rfl

/-- **A submission finds its attempt timed out** on the verdict of `reachedExpiration`, once
the checks before that one have passed. -/
theorem eval_validateAssessmentSubmission {problemId userId assessmentId attemptId : ObjectId}
    {language : String} (hattempt : s.attempt attemptId = some attempt)
    (hassessment : s.assessment assessmentId = some assessment)
    (hstudent : (s.populateAttempt attempt).student = some userId)
    (hof : (s.populateAttempt attempt).assessment = some assessmentId)
    (hlocked : assessment.locked = false) (hactive : attempt.status = .active) :
    ((validateAssessmentSubmission problemId language userId (some assessmentId)
        (some attemptId)).eval (answer c) s).1 =
        .error (.http 409 "Attempt has timed out and no longer accepts submissions") ↔
      reachedExpiration attempt assessment s.clock = true := by
  have hfind : answer c s (.findAttempt attemptId none) =
      (.ok (some (s.populateAttempt attempt)), s) := by
    show (Except.ok (((s.attempt attemptId).filter fun _ => true).map s.populateAttempt), s) = _
    rw [hattempt]
    rfl
  have hfind' : answer c s (.findAssessment (some assessmentId) none) =
      (.ok (some (s.populateAssessment assessment)), s) := by
    show (Except.ok (((s.assessment assessmentId).filter fun _ => true).map
      s.populateAssessment), s) = _
    rw [hassessment]
    rfl
  unfold validateAssessmentSubmission
  rw [eval_ask c _ hfind]
  change ((require _ _ >>= _ : Task Unit).eval _ _).1 = _ ↔ _
  rw [require_bind _ _ hstudent, require_bind _ _ hof, eval_ask c _ hfind']
  change ((require _ _ >>= _ : Task Unit).eval _ _).1 = _ ↔ _
  rw [require_bind _ _ (show (s.populateAssessment assessment).doc.locked = false from hlocked),
    require_bind _ _ (show (s.populateAttempt attempt).doc.status = .active from hactive)]
  change (Program.eval (answer c) s
    (if reachedExpiration attempt assessment s.clock = true then _ else _)).1 = _ ↔ _
  split_ifs with h
  · exact ⟨fun _ => h, fun _ => rfl⟩
  · refine ⟨fun herror => ?_, fun hreached => absurd hreached h⟩
    unfold require at herror
    split_ifs at herror
    · cases herror
    · cases herror
    · cases herror
    · cases herror

end Verdicts

/-! ## One notion of expiry -/

/-- The services have one expiration time, and one verdict at an instant. -/
structure SameExpiry (attempt : Attempt) (assessment : Assessment) (now : Date) : Prop where
  time : getExpirationTime attempt assessment = getAttemptExpiration attempt assessment
  verdict : pastExpiration attempt assessment now = reachedExpiration attempt assessment now

/-- An instant is the earlier of the dates of two bounds. -/
def Bounds.ExpireAt (b : Bounds) (now : Date) : Prop :=
  ∃ n, earlier (timeClip b.relative) (timeClip b.absolute) = some n ∧ now.eq (.ofInt n) = true

/-- The smaller of the bounds by seconds is cut to the millisecond of the earlier date of
the bounds at once. -/
def OneMillisecond (once bySeconds : Bounds) : Prop :=
  timeClip (minNumber bySeconds.relative bySeconds.absolute) =
    earlier (timeClip once.relative) (timeClip once.absolute)

theorem expirationTime_eq_iff (attempt : Attempt) (assessment : Assessment) :
    getExpirationTime attempt assessment = getAttemptExpiration attempt assessment ↔
      OneMillisecond (assessmentBounds attempt assessment)
        (submissionBounds attempt assessment) := by
  rw [getExpirationTime_eq, getAttemptExpiration_eq,
    dateOf_inj (fun _ => abs_le_of_earlier) fun _ => abs_le_of_timeClip]
  exact eq_comm

/-- On one expiration time the two comparisons differ at that time only. -/
theorem verdict_eq_iff {attempt : Attempt} {assessment : Assessment} (now : Date)
    (h : getExpirationTime attempt assessment = getAttemptExpiration attempt assessment) :
    pastExpiration attempt assessment now = reachedExpiration attempt assessment now ↔
      ¬(assessmentBounds attempt assessment).ExpireAt now := by
  unfold pastExpiration reachedExpiration
  rw [← h, Binary64.lt_eq_le_iff, getExpirationTime_eq, ← Bool.not_eq_true, eq_dateOf]
  rfl

/-- **The services have one notion of expiry** at an instant if and only if their ways to
add up the minutes agree on the millisecond, and the instant is not the expiration time
itself. -/
theorem sameExpiry_iff (attempt : Attempt) (assessment : Assessment) (now : Date) :
    SameExpiry attempt assessment now ↔
      OneMillisecond (assessmentBounds attempt assessment) (submissionBounds attempt assessment) ∧
      ¬(assessmentBounds attempt assessment).ExpireAt now := by
  constructor
  · intro h
    exact ⟨(expirationTime_eq_iff attempt assessment).mp h.time,
      (verdict_eq_iff now h.time).mp h.verdict⟩
  · rintro ⟨hone, hnot⟩
    have htime := (expirationTime_eq_iff attempt assessment).mpr hone
    exact ⟨htime, (verdict_eq_iff now htime).mpr hnot⟩

/-- Three hundredths of a minute are 1800 ms at once, and a little less by way of seconds. -/
example :
    ¬OneMillisecond (boundsAtOnce (.ofInt 0) (.ofRat (3 / 100)) .zero (.ofInt 7200000))
      (boundsBySeconds (.ofInt 0) (.ofRat (3 / 100)) .zero (.ofInt 7200000)) := by
  unfold OneMillisecond
  decide +kernel

/-! ## Whole minutes -/

theorem orZero_ofInt {n : ℤ} (h : |n| < 2 ^ 53) : orZero (.ofInt n) = .ofInt n := by
  unfold orZero
  split_ifs with hzero
  · rw [Binary64.ofInt_of_abs_lt h] at hzero
    rcases hzero with hzero | hnan
    · rw [← Binary64.ofInt_of_abs_lt h, ← Binary64.ofInt_zero,
        Binary64.eq_ofInt h (by norm_num), decide_eq_true_eq] at hzero
      rw [hzero, Binary64.ofInt_zero]
    · cases hnan
  · rfl

theorem minNumber_ofInt {m n : ℤ} (hm : |m| < 2 ^ 53) (hn : |n| < 2 ^ 53) :
    minNumber (.ofInt m) (.ofInt n) = .ofInt (min m n) := by
  unfold minNumber
  rw [if_neg, Binary64.le_ofInt hm hn]
  · by_cases h : m ≤ n
    · rw [decide_eq_true h, if_pos rfl, min_eq_left h]
    · rw [decide_eq_false h, min_eq_right (not_le.mp h).le]
      rfl
  · rw [Binary64.ofInt_of_abs_lt hm, Binary64.ofInt_of_abs_lt hn]
    simp

theorem abs_lt_of_nonneg {n : ℤ} (h : 0 ≤ n) (hle : n ≤ maxTime) : |n| < 2 ^ 53 :=
  abs_lt_of_le_maxTime (by rwa [abs_of_nonneg h])

theorem mul_unit {n k : ℤ} (h : 0 ≤ n) (hk : 0 < k) (hk' : k ≤ 60000) (hle : n * k ≤ maxTime) :
    (Binary64.ofInt n).mul (.ofInt k) = .ofInt (n * k) := by
  have hn : n ≤ n * k := le_mul_of_one_le_right h (by omega)
  apply Binary64.mul_ofInt
  · exact abs_lt_of_nonneg h (hn.trans hle)
  · exact abs_lt_of_nonneg hk.le (hk'.trans (by decide))
  · exact hk
  · exact abs_lt_of_nonneg (h.trans hn) hle

theorem bySeconds_ofInt {n : ℤ} (h : 0 ≤ n) (hle : n * 60000 ≤ maxTime) :
    bySeconds (.ofInt n) = .ofInt (n * 60000) := by
  have hms : n * 60 * 1000 = n * 60000 := by omega
  rw [bySeconds, mul_unit h (by norm_num) (by norm_num) (by omega),
    mul_unit (by omega) (by norm_num) (by norm_num) (by omega), hms]

theorem add_times {m n : ℤ} (hm : 0 ≤ m) (hn : 0 ≤ n) (hle : m + n ≤ maxTime) :
    (Binary64.ofInt m).add (.ofInt n) = .ofInt (m + n) :=
  Binary64.add_ofInt (abs_lt_of_nonneg hm (by omega)) (abs_lt_of_nonneg hn (by omega))

/-- The times of an attempt as integers: after the epoch and within the range of dates. -/
structure WholeMinutes (attempt : Attempt) (assessment : Assessment)
    (start duration grace finish : ℤ) : Prop where
  startedAt : attempt.startedAt = .ofInt start
  durationMinutes : assessment.durationMinutes = .ofInt duration
  graceMinutes : attempt.graceMinutes = .ofInt grace
  endTime : assessment.endTime = .ofInt finish
  start_nonneg : 0 ≤ start
  duration_nonneg : 0 ≤ duration
  grace_nonneg : 0 ≤ grace
  finish_nonneg : 0 ≤ finish
  relative_le : start + (duration + grace) * 60000 ≤ maxTime
  absolute_le : finish + grace * 60000 ≤ maxTime

section WholeMinutes

variable {attempt : Attempt} {assessment : Assessment} {start duration grace finish : ℤ}

/-- **Both services compute the same bounds in whole minutes.** -/
theorem WholeMinutes.bounds (h : WholeMinutes attempt assessment start duration grace finish) :
    assessmentBounds attempt assessment =
        ⟨.ofInt (start + (duration + grace) * 60000), .ofInt (finish + grace * 60000)⟩ ∧
      submissionBounds attempt assessment = assessmentBounds attempt assessment := by
  obtain ⟨hstart, hduration, hgrace, hfinish, hs, hd, hg, hf, hrelative, habsolute⟩ := h
  have hdms : 0 ≤ duration * 60000 := by omega
  have hgms : 0 ≤ grace * 60000 := by omega
  have horZero : orZero attempt.graceMinutes = .ofInt grace := by
    rw [hgrace, orZero_ofInt (abs_lt_of_nonneg hg (by omega))]
  have honce : assessmentBounds attempt assessment =
      ⟨.ofInt (start + (duration + grace) * 60000), .ofInt (finish + grace * 60000)⟩ := by
    unfold assessmentBounds boundsAtOnce minuteMs
    rw [horZero, hstart, hduration, hfinish, mul_unit hd (by norm_num) le_rfl (by omega),
      mul_unit hg (by norm_num) le_rfl (by omega), add_times hdms hgms (by omega), ← add_mul,
      add_times hs (by omega) hrelative, add_times hf hgms habsolute]
  refine ⟨honce, ?_⟩
  rw [honce]
  unfold submissionBounds boundsBySeconds
  rw [horZero, hstart, hduration, hfinish, bySeconds_ofInt hd (by omega),
    bySeconds_ofInt hg (by omega), add_times hs hdms (by omega),
    add_times (by omega) hgms (by omega), add_times hf hgms habsolute, add_assoc, ← add_mul]

/-- **In whole minutes the services differ only at the expiration time itself.** -/
theorem sameExpiry_of_wholeMinutes
    (h : WholeMinutes attempt assessment start duration grace finish) (now : Date) :
    SameExpiry attempt assessment now ↔
      now.eq (.ofInt (min (start + (duration + grace) * 60000) (finish + grace * 60000))) =
        false := by
  obtain ⟨honce, hboth⟩ := h.bounds
  have hrelative : |start + (duration + grace) * 60000| ≤ maxTime := by
    rw [abs_of_nonneg]
    · exact h.relative_le
    · linarith [h.start_nonneg, h.duration_nonneg, h.grace_nonneg]
  have habsolute : |finish + grace * 60000| ≤ maxTime := by
    rw [abs_of_nonneg]
    · exact h.absolute_le
    · linarith [h.finish_nonneg, h.grace_nonneg]
  have hearlier : earlier (timeClip (assessmentBounds attempt assessment).relative)
      (timeClip (assessmentBounds attempt assessment).absolute) =
      some (min (start + (duration + grace) * 60000) (finish + grace * 60000)) := by
    rw [honce, timeClip_ofInt hrelative, timeClip_ofInt habsolute]
    rfl
  have hmin : |min (start + (duration + grace) * 60000) (finish + grace * 60000)| ≤ maxTime :=
    abs_le_of_earlier hearlier
  have htime : getExpirationTime attempt assessment = getAttemptExpiration attempt assessment := by
    rw [expirationTime_eq_iff, OneMillisecond, hearlier, hboth, honce,
      minNumber_ofInt (abs_lt_of_le_maxTime hrelative) (abs_lt_of_le_maxTime habsolute),
      timeClip_ofInt hmin]
  have hverdict := verdict_eq_iff now htime
  unfold Bounds.ExpireAt at hverdict
  rw [hearlier] at hverdict
  constructor
  · intro hsame
    have hnot := hverdict.mp hsame.verdict
    rw [← Bool.not_eq_true]
    exact fun hnow => hnot ⟨_, rfl, hnow⟩
  · intro hnow
    refine ⟨htime, hverdict.mpr ?_⟩
    rintro ⟨n, hn, heq⟩
    obtain rfl := Option.some.inj hn
    rw [hnow] at heq
    cases heq

end WholeMinutes

/-! ## The last millisecond -/

/-- An attempt of one hour without grace time, from the epoch on. -/
def hourAttempt : Attempt where
  id := "attempt"
  assessmentId := "assessment"
  studentId := "student"
  collegeId := none
  startedAt := .ofInt 0
  submittedAt := none
  score := .zero
  status := .active
  graceMinutes := .ofInt 0
  challenge := ⟨.none, none, none, none, none⟩
  problemOrder := []
  timeline := []

def hourAssessment : Assessment where
  id := "assessment"
  endTime := .ofInt 7200000
  durationMinutes := .ofInt 60
  allowedLanguages := []
  problems := []
  collegeId := none
  locked := false

/-- At the end of the hour the attempt is open to one service and closed to the other. -/
theorem hour_verdicts :
    pastExpiration hourAttempt hourAssessment (.ofInt 3600000) = false ∧
      reachedExpiration hourAttempt hourAssessment (.ofInt 3600000) = true ∧
      ¬SameExpiry hourAttempt hourAssessment (.ofInt 3600000) := by
  have hpast : pastExpiration hourAttempt hourAssessment (.ofInt 3600000) = false := by
    decide +kernel
  have hreached : reachedExpiration hourAttempt hourAssessment (.ofInt 3600000) = true := by
    decide +kernel
  refine ⟨hpast, hreached, fun hsame => ?_⟩
  have hverdict := hsame.verdict
  rw [hpast, hreached] at hverdict
  cases hverdict

end Api
