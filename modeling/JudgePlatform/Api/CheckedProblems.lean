/-
# Problems that were checked

What the checks of `createProblem` and `updateProblem` leave to the document: whatever the
payload was, the changes that it becomes define a problem for a named function, with types that
are valid, tests that have one input for each parameter, and a sample among them.

* `Defines` : what such changes are.
* `defines_of_checked` : the contract, the checks and the casts come to it.
* `syncs_syncDocument` : the document of a synchronized problem.
-/
import JudgePlatform.Api.ProblemStore

namespace Problems

open JsValue
open Api (Members)
open Judge (Parameter isValidType stdinProblem)

/-- Tests with an expected output, each hidden just when it is no sample, and a sample. -/
structure Usable (tcs : List TestCase) : Prop where
  expected : ∀ tc ∈ tcs, isMissing tc.expected = false
  marked : ∀ tc ∈ tcs, tc.isHidden = !tc.isSample
  sample : ∃ tc ∈ tcs, tc.isSample = true

/-- Changes that define a problem for a named function. -/
structure Defines (c : Changes) : Prop where
  externalId : c.externalId = none
  problemType : c.problemType = none
  title : ∃ s, c.title = some s ∧ s ≠ ""
  description : ∃ s, c.description = some s ∧ s ≠ ""
  functionName : ∃ s, c.functionName = some s ∧ s ≠ ""
  returnType : ∃ s, c.returnType = some s ∧ isValidType s = true
  tests : ∃ ps tcs, c.parameters = some ps ∧ c.testCases = some tcs ∧ Usable tcs ∧
    (∀ p ∈ ps, p.name ≠ "" ∧ isValidType p.type = true) ∧ ∀ tc ∈ tcs, tc.inputs.length = ps.length

/-- Changes that a synchronized problem is written by. -/
structure Syncs (c : Changes) : Prop where
  externalId : ∃ s, c.externalId = some s
  problemType : c.problemType = some stdinProblem
  description : ∃ s, c.description = some s ∧ s ≠ ""
  tests : ∃ tcs, c.testCases = some tcs ∧ Usable tcs

/-! ## Lists -/

section Lists

variable {α β : Type}

theorem forall₂_of_mapM {f : α → Option β} {xs : List α} {ys : List β}
    (h : xs.mapM f = some ys) : List.Forall₂ (fun x y => f x = some y) xs ys := by
  induction xs generalizing ys with
  | nil =>
    obtain rfl := Option.some.inj h
    exact .nil
  | cons x xs ih =>
    rw [List.mapM_cons] at h
    obtain ⟨y, hy, h⟩ := Option.bind_eq_some_iff.mp h
    obtain ⟨zs, hzs, h⟩ := Option.bind_eq_some_iff.mp h
    obtain rfl := Option.some.inj h
    exact .cons hy (ih hzs)

theorem exists_of_mapM {f : α → Option β} {xs : List α} {ys : List β} (h : xs.mapM f = some ys)
    {y : β} (hy : y ∈ ys) : ∃ x ∈ xs, f x = some y := by
  have hall := forall₂_of_mapM h
  clear h
  induction hall with
  | nil => exact absurd hy List.not_mem_nil
  | cons hxy _ ih =>
    rcases List.mem_cons.mp hy with rfl | hy
    · exact ⟨_, List.mem_cons_self, hxy⟩
    · obtain ⟨x, hx, hfx⟩ := ih hy
      exact ⟨x, List.mem_cons_of_mem _ hx, hfx⟩

theorem exists_of_mapM' {f : α → Option β} {xs : List α} {ys : List β} (h : xs.mapM f = some ys)
    {x : α} (hx : x ∈ xs) : ∃ y ∈ ys, f x = some y := by
  have hall := forall₂_of_mapM h
  clear h
  induction hall with
  | nil => exact absurd hx List.not_mem_nil
  | cons hxy _ ih =>
    rcases List.mem_cons.mp hx with rfl | hx
    · exact ⟨_, List.mem_cons_self, hxy⟩
    · obtain ⟨y, hy, hfx⟩ := ih hx
      exact ⟨y, List.mem_cons_of_mem _ hy, hfx⟩

theorem length_of_mapM {f : α → Option β} {xs : List α} {ys : List β} (h : xs.mapM f = some ys) :
    ys.length = xs.length :=
  (forall₂_of_mapM h).length_eq.symm

end Lists

/-- Where no item has an error, the checks of each have found none. -/
theorem eq_nil_of_numbered {errors : ℕ → JsValue → List String} {xs : List JsValue}
    (h : numbered errors xs = []) {x : JsValue} (hx : x ∈ xs) : ∃ i, errors i x = [] := by
  obtain ⟨i, hi, rfl⟩ := List.getElem_of_mem hx
  refine ⟨i, ?_⟩
  have hmem : (xs[i], i) ∈ xs.zipIdx := by
    rw [List.mem_zipIdx_iff_getElem?]
    exact List.getElem?_eq_getElem hi
  exact List.flatMap_eq_nil_iff.mp h _ hmem

/-! ## Casts -/

section Casts

variable {α : Type} {cast : JsValue → Option α} {ms : Members} {k : String} {x : Option α}

theorem castMember_none (hk : lookup ms k = none) (h : castMember cast ms k = some x) :
    x = none := by
  unfold castMember at h
  rw [hk] at h
  exact (Option.some.inj h).symm

theorem castMember_some {v : JsValue} (hk : lookup ms k = some v)
    (h : castMember cast ms k = some x) : ∃ a, cast v = some a ∧ x = some a := by
  unfold castMember at h
  rw [hk] at h
  obtain ⟨a, ha, rfl⟩ := Option.map_eq_some_iff.mp h
  exact ⟨a, ha, rfl⟩

/-- A text stays as it is. -/
theorem castMember_str {platform : Platform} {x : Option String} {s : String}
    (hk : lookup ms k = some (.str s)) (h : castMember platform.castString ms k = some x) :
    x = some s := by
  obtain ⟨a, ha, rfl⟩ := castMember_some hk h
  rw [platform.castString_str] at ha
  exact ha.symm

theorem castMember_bool {platform : Platform} {x : Option Bool} {b : Bool}
    (hk : lookup ms k = some (.bool b)) (h : castMember platform.castBoolean ms k = some x) :
    x = some b := by
  obtain ⟨a, ha, rfl⟩ := castMember_some hk h
  rw [platform.castBoolean_bool] at ha
  exact ha.symm

theorem castMember_arr {x : Option (List α)} {vs : List JsValue}
    (hk : lookup ms k = some (.arr vs)) (h : castMember (castArray cast) ms k = some x) :
    ∃ as, vs.mapM cast = some as ∧ x = some as :=
  castMember_some hk h

end Casts

section Checked

variable {platform : Platform} {ms : Members} {c : Changes} {isDateTime : String → Bool}

/-- The members that the contract requires. -/
theorem members_of_schema (h : problemSchema isDateTime (.obj ms) = true) :
    (∃ s, lookup ms "title" = some (.str s) ∧ s ≠ "") ∧
    (∃ s, lookup ms "description" = some (.str s) ∧ s ≠ "") ∧
    (∃ s, lookup ms "functionName" = some (.str s) ∧ s ≠ "") ∧
    (∃ s, lookup ms "returnType" = some (.str s)) ∧
    (∃ ps, lookup ms "parameters" = some (.arr ps) ∧ ∀ p ∈ ps, parameterSchema p = true) ∧
    ∃ tcs, lookup ms "testCases" = some (.arr tcs) ∧ ∀ tc ∈ tcs, testCaseSchema tc = true := by
  have htext : ∀ (k : String) (fits : String → Bool),
      lookup (problemProperties isDateTime) k = some (JsonSchema.text 1 fits) →
      k ∈ ["title", "description", "difficulty", "functionName", "parameters", "returnType",
        "testCases"] → ∃ s, lookup ms k = some (.str s) ∧ s ≠ "" := by
    intro k fits hk hrequired
    obtain ⟨x, hx, haccepted⟩ := JsonSchema.required_member h hk hrequired
    obtain ⟨s, rfl, hlength, -⟩ := JsonSchema.text_iff.mp haccepted
    refine ⟨s, hx, ?_⟩
    rintro rfl
    exact absurd hlength (by decide)
  have harray : ∀ (k : String) (items : JsonSchema),
      lookup (problemProperties isDateTime) k = some (JsonSchema.array 1 items) →
      k ∈ ["title", "description", "difficulty", "functionName", "parameters", "returnType",
        "testCases"] → ∃ xs, lookup ms k = some (.arr xs) ∧ ∀ x ∈ xs, items x = true := by
    intro k items hk hrequired
    obtain ⟨x, hx, haccepted⟩ := JsonSchema.required_member h hk hrequired
    obtain ⟨xs, rfl, -, hall⟩ := JsonSchema.array_iff.mp haccepted
    exact ⟨xs, hx, hall⟩
  refine ⟨htext _ _ rfl (by decide), htext _ _ rfl (by decide), htext _ _ rfl (by decide), ?_,
    harray _ _ rfl (by decide), harray _ _ rfl (by decide)⟩
  obtain ⟨s, hs, -⟩ := htext "returnType" _ rfl (by decide)
  exact ⟨s, hs⟩

/-- No member is named that only the service itself sets. -/
theorem absent_of_schema (h : problemSchema isDateTime (.obj ms) = true) :
    lookup ms "externalId" = none ∧ lookup ms "problemType" = none :=
  ⟨JsonSchema.lookup_eq_none h rfl, JsonSchema.lookup_eq_none h rfl⟩

/-- A parameter that keeps the contract and has a valid type. -/
theorem parameter_of_cast {p : JsValue} {q : Parameter} (hschema : parameterSchema p = true)
    (htype : hasValidType (chained (some p) "type") = true)
    (hcast : castParameter platform p = some q) : q.name ≠ "" ∧ isValidType q.type = true := by
  obtain ⟨ms, rfl⟩ := JsonSchema.exists_of_object hschema
  obtain ⟨x, hx, haccepted⟩ := JsonSchema.required_member (k := "name") hschema rfl (by decide)
  obtain ⟨name, rfl, hlength, -⟩ := JsonSchema.text_iff.mp haccepted
  obtain ⟨y, hy, haccepted⟩ := JsonSchema.required_member (k := "type") hschema rfl (by decide)
  obtain ⟨type, rfl, -, -⟩ := JsonSchema.text_iff.mp haccepted
  simp only [castParameter, Option.bind_eq_bind, Option.bind_eq_some_iff] at hcast
  obtain ⟨name', hname, type', htype', hq⟩ := hcast
  obtain rfl := castMember_str hx hname
  obtain rfl := castMember_str hy htype'
  obtain rfl := Option.some.inj hq
  constructor
  · rintro rfl
    exact absurd hlength (by decide)
  · have hchained : chained (some (.obj ms)) "type" = some (.str type) := hy
    rw [hchained] at htype
    exact htype

theorem parameters_of_cast {ps : List JsValue} {qs : List Parameter}
    (hschema : ∀ p ∈ ps, parameterSchema p = true) (htypes : parameterTypeErrors ps = [])
    (hcast : ps.mapM (castParameter platform) = some qs) :
    ∀ q ∈ qs, q.name ≠ "" ∧ isValidType q.type = true := by
  intro q hq
  obtain ⟨p, hp, hpq⟩ := exists_of_mapM hcast hq
  refine parameter_of_cast (hschema p hp) ?_ hpq
  by_contra hinvalid
  have hnil := List.flatMap_eq_nil_iff.mp htypes p hp
  rw [if_neg hinvalid] at hnil
  cases hnil

/-- The items of a list that was mapped. -/
theorem items_of_mapMember {k : String} {f : JsValue → Option JsValue} {ms' : Members}
    {ys : List JsValue} (h : mapMember k f ms = some ms') (hk : lookup ms' k = some (.arr ys)) :
    ∀ y ∈ ys, ∃ x, f x = some y := by
  intro y hy
  unfold mapMember at h
  split at h
  · obtain ⟨zs, hzs, rfl⟩ := Option.map_eq_some_iff.mp h
    rw [lookup_setMember_self] at hk
    obtain rfl := JsValue.arr.inj (Option.some.inj hk)
    obtain ⟨x, -, hx⟩ := exists_of_mapM hzs hy
    exact ⟨x, hx⟩
  · rename_i hnot
    obtain rfl := Option.some.inj h
    exact absurd hk (hnot ys)

theorem tests_of_normalized {payload : Members} {tcs : List JsValue}
    (h : normalizeProblemPayload payload = some ms)
    (hk : lookup ms "testCases" = some (.arr tcs)) :
    ∀ tc ∈ tcs, ∃ raw, normalizeTest raw = some tc := by
  simp only [normalizeProblemPayload, Option.bind_eq_bind, Option.bind_eq_some_iff] at h
  obtain ⟨ms', -, h⟩ := h
  exact items_of_mapMember h hk

theorem lookup_testMembers (inputs expected : Option JsValue) (sample : Bool) :
    lookup (testMembers inputs expected sample) "inputs" = inputs ∧
    lookup (testMembers inputs expected sample) "isSample" = some (.bool sample) ∧
    lookup (testMembers inputs expected sample) "isHidden" = some (.bool !sample) := by
  simp [testMembers, setMembers, lookup_setMember_of_ne, lookup_setMember_self]

theorem mapM_some (xs : List JsValue) : xs.mapM some = some xs := by
  induction xs with
  | nil => rfl
  | cons x xs ih =>
    rw [List.mapM_cons, ih]
    rfl

/-- A test case of a normalized payload is stored with its inputs, and hidden just when it is not
marked as a sample. -/
theorem test_of_cast {raw tc : JsValue} {t : TestCase} (h : normalizeTest raw = some tc)
    (hcast : castTest platform tc = some t) : t.isHidden = !t.isSample ∧
      t.isSample = isMarkedSample tc ∧ t.expected = chained (some tc) "expected" ∧
      ∀ xs, chained (some tc) "inputs" = some (.arr xs) → t.inputs = xs := by
  simp only [normalizeTest, Option.bind_eq_bind, Option.bind_eq_some_iff] at h
  obtain ⟨isSample, -, inputs, -, expected, -, h⟩ := h
  obtain rfl := Option.some.inj h
  obtain ⟨-, hsample, hhidden⟩ := lookup_testMembers inputs expected (isTrue isSample)
  simp only [castTest, Option.bind_eq_bind, Option.bind_eq_some_iff] at hcast
  obtain ⟨inputs', hinputs', isSample', hsample', isHidden', hhidden', ht⟩ := hcast
  obtain rfl := Option.some.inj ht
  obtain rfl := castMember_bool hsample hsample'
  obtain rfl := castMember_bool hhidden hhidden'
  refine ⟨rfl, ?_, rfl, fun xs hxs => ?_⟩
  · show isTrue isSample = isTrue (lookup _ "isSample")
    rw [hsample]
    cases isTrue isSample <;> rfl
  · obtain ⟨as, has, rfl⟩ := castMember_arr hxs hinputs'
    rw [mapM_some] at has
    exact (Option.some.inj has).symm

/-- Where no type error was found. -/
theorem typed_of_typeErrors {ps tcs : List JsValue}
    (hps : lookup ms "parameters" = some (.arr ps)) (htcs : lookup ms "testCases" = some (.arr tcs))
    (h : typeErrors ms = []) : parameterTypeErrors ps = [] ∧
      hasValidType (lookup ms "returnType") = true ∧
      ∀ tc ∈ tcs, ∃ xs, chained (some tc) "inputs" = some (.arr xs) ∧ xs.length = ps.length := by
  unfold typeErrors at h
  rw [hps, htcs] at h
  dsimp only at h
  by_cases herrors : (parameterTypeErrors ps ++ if hasValidType (lookup ms "returnType") then []
      else ["Invalid returnType string: " ++ shown (lookup ms "returnType")]) = []
  · rw [if_pos herrors] at h
    obtain ⟨hparams, hreturn⟩ := List.append_eq_nil_iff.mp herrors
    refine ⟨hparams, ?_, fun tc htc => ?_⟩
    · by_contra hinvalid
      rw [if_neg hinvalid] at hreturn
      cases hreturn
    · obtain ⟨i, hi⟩ := eq_nil_of_numbered h htc
      unfold testTypeErrors at hi
      dsimp only at hi
      split at hi
      · rename_i xs hxs
        refine ⟨xs, hxs, ?_⟩
        by_contra hlength
        rw [if_pos hlength] at hi
        cases hi
      · cases hi
  · rw [if_neg herrors] at h
    exact absurd h herrors

/-- Where the checks of the service found nothing, there is a sample, and each test expects
something. -/
theorem tests_of_valid {ps tcs : List JsValue}
    (hps : lookup ms "parameters" = some (.arr ps)) (htcs : lookup ms "testCases" = some (.arr tcs))
    (h : validateProblemPayload ms = []) : (∃ tc ∈ tcs, isMarkedSample tc = true) ∧
      ∀ tc ∈ tcs, isMissing (chained (some tc) "expected") = false := by
  unfold validateProblemPayload at h
  rw [hps, htcs] at h
  simp only [List.append_eq_nil_iff] at h
  obtain ⟨-, -, -, ⟨-, htests⟩, -, -, -, -, -, hsample⟩ := h
  constructor
  · unfold sampleErrors at hsample
    by_contra hnone
    rw [if_neg] at hsample
    · cases hsample
    · rw [List.any_eq_true]
      exact hnone
  · intro tc htc
    obtain ⟨i, hi⟩ := eq_nil_of_numbered htests htc
    obtain ⟨-, hi⟩ := List.append_eq_nil_iff.mp hi
    split at hi
    · cases hi
    · cases hi
    · rename_i hnone hnull
      cases hfield : chained (some tc) "expected" with
      | none => exact absurd hfield hnone
      | some v =>
        cases v with
        | null => exact absurd hfield hnull
        | _ => rfl

/-- **What was checked defines a problem.** -/
theorem defines_of_checked {payload : Members} (hnormalized : normalizeProblemPayload payload = some ms)
    (hvalid : validateProblemPayload ms = []) (hschema : platform.schemaErrors (.obj ms) = [])
    (htypes : typeErrors ms = []) (hcast : castProblem platform ms = some c) : Defines c := by
  have hcontract := platform.schema_of_nil _ hschema
  obtain ⟨⟨title, htitle, hne⟩, ⟨description, hdescription, hne'⟩, ⟨name, hname, hne''⟩,
    ⟨type, htype⟩, ⟨ps, hps, hparams⟩, tcs, htcs, htests⟩ := members_of_schema hcontract
  obtain ⟨hexternal, hkind⟩ := absent_of_schema hcontract
  obtain ⟨hptypes, hreturn, harity⟩ := typed_of_typeErrors hps htcs htypes
  obtain ⟨hsample, hexpected⟩ := tests_of_valid hps htcs hvalid
  have hraw := tests_of_normalized hnormalized htcs
  unfold castProblem at hcast
  obtain ⟨externalId, h₁, hcast⟩ := Option.bind_eq_some_iff.mp hcast
  obtain ⟨title', h₂, hcast⟩ := Option.bind_eq_some_iff.mp hcast
  obtain ⟨description', h₃, hcast⟩ := Option.bind_eq_some_iff.mp hcast
  obtain ⟨difficulty, -, hcast⟩ := Option.bind_eq_some_iff.mp hcast
  obtain ⟨problemType, h₅, hcast⟩ := Option.bind_eq_some_iff.mp hcast
  obtain ⟨functionName, h₆, hcast⟩ := Option.bind_eq_some_iff.mp hcast
  obtain ⟨parameters, h₇, hcast⟩ := Option.bind_eq_some_iff.mp hcast
  obtain ⟨returnType, h₈, hcast⟩ := Option.bind_eq_some_iff.mp hcast
  obtain ⟨timeLimitMs, -, hcast⟩ := Option.bind_eq_some_iff.mp hcast
  obtain ⟨memoryLimitMb, -, hcast⟩ := Option.bind_eq_some_iff.mp hcast
  obtain ⟨compareConfig, -, hcast⟩ := Option.bind_eq_some_iff.mp hcast
  obtain ⟨testCases, h₁₂, hcast⟩ := Option.bind_eq_some_iff.mp hcast
  obtain ⟨testsJSON, -, hcast⟩ := Option.bind_eq_some_iff.mp hcast
  obtain ⟨isPremium, -, hcast⟩ := Option.bind_eq_some_iff.mp hcast
  obtain rfl := Option.some.inj hcast
  obtain ⟨qs, hqs, rfl⟩ := castMember_arr hps h₇
  obtain ⟨ts, hts, rfl⟩ := castMember_arr htcs h₁₂
  refine ⟨castMember_none hexternal h₁, castMember_none hkind h₅, ⟨title, castMember_str htitle h₂, hne⟩,
    ⟨description, castMember_str hdescription h₃, hne'⟩, ⟨name, castMember_str hname h₆, hne''⟩,
    ⟨type, castMember_str htype h₈, ?_⟩, qs, ts, rfl, rfl, ⟨fun t ht => ?_, fun t ht => ?_, ?_⟩,
    parameters_of_cast hparams hptypes hqs, fun t ht => ?_⟩
  · rw [htype] at hreturn
    exact hreturn
  · obtain ⟨tc, htc, hcast⟩ := exists_of_mapM hts ht
    obtain ⟨raw, hraw⟩ := hraw tc htc
    rw [(test_of_cast hraw hcast).2.2.1]
    exact hexpected tc htc
  · obtain ⟨tc, htc, hcast⟩ := exists_of_mapM hts ht
    obtain ⟨raw, hraw⟩ := hraw tc htc
    exact (test_of_cast hraw hcast).1
  · obtain ⟨tc, htc, hmarked⟩ := hsample
    obtain ⟨t, ht, hcast⟩ := exists_of_mapM' hts htc
    obtain ⟨raw, hraw⟩ := hraw tc htc
    exact ⟨t, ht, (test_of_cast hraw hcast).2.1.trans hmarked⟩
  · obtain ⟨tc, htc, hcast⟩ := exists_of_mapM hts ht
    obtain ⟨raw, hraw⟩ := hraw tc htc
    obtain ⟨xs, hxs, hlength⟩ := harity tc htc
    rw [(test_of_cast hraw hcast).2.2.2 xs hxs, hlength, length_of_mapM hqs]

/-- What a payload of the partner service has where no error was found. -/
theorem of_arventiq_valid {payload : JsValue}
    (h : validateArventiqProblemPayload payload = some []) :
    isText (chained (some payload) "question_text") = true ∧
      ∃ tcs, chained (some payload) "test_cases" = some (.arr tcs) ∧
        ∃ tc ∈ tcs, isArventiqTestHidden tc = false := by
  unfold validateArventiqProblemPayload at h
  dsimp only at h
  split at h
  all_goals try (cases h)
  split at h
  · rename_i tc tcs htests
    replace h := (Option.ite_none_left_eq_some.mp h).2
    have h := Option.some.inj h
    simp only [List.append_eq_nil_iff] at h
    obtain ⟨-, -, hquestion, -, hvisible⟩ := h
    refine ⟨?_, tc :: tcs, htests, ?_⟩
    · by_contra htext
      rw [if_neg htext] at hquestion
      cases hquestion
    · by_contra hall
      push Not at hall
      rw [if_pos (List.all_eq_true.mpr fun tc htc => Bool.eq_true_of_not_eq_false (hall tc htc))]
        at hvisible
      cases hvisible
  · have h := Option.some.inj h
    simp only [List.append_eq_nil_iff, List.cons_ne_nil, and_false] at h

theorem syncs_syncDocument {payload : JsValue}
    (hvalid : validateArventiqProblemPayload payload = some [])
    (hdoc : syncDocument platform payload = some c) : Syncs c := by
  obtain ⟨hquestion, tcs, htests, tc, htc, hvisible⟩ := of_arventiq_valid hvalid
  unfold syncDocument at hdoc
  obtain ⟨title, -, hdoc⟩ := Option.bind_eq_some_iff.mp hdoc
  obtain ⟨memoryLimitMb, -, hdoc⟩ := Option.bind_eq_some_iff.mp hdoc
  obtain rfl := Option.some.inj hdoc
  refine ⟨⟨_, rfl⟩, rfl, ?_, tcs.map syncTest, ?_, fun t ht => ?_, fun t ht => ?_, syncTest tc,
    List.mem_map_of_mem htc, ?_⟩
  · unfold isText at hquestion
    cases hfield : chained (some payload) "question_text" with
    | none =>
      rw [hfield] at hquestion
      cases hquestion
    | some v =>
      rw [hfield] at hquestion
      cases v with
      | str s => exact ⟨s, rfl, of_decide_eq_true hquestion⟩
      | _ => cases hquestion
  · show syncTests payload = some (tcs.map syncTest)
    unfold syncTests
    rw [htests]
  · obtain ⟨tc, -, rfl⟩ := List.mem_map.mp ht
    rfl
  · obtain ⟨tc, -, rfl⟩ := List.mem_map.mp ht
    exact (Bool.not_not _).symm
  · show (!isArventiqTestHidden tc) = true
    rw [hvisible]
    rfl

end Checked

end Problems
