/-
# Payloads of problems

What staff send to create or change a problem, and what a partner service sends to synchronize
one, is trimmed and checked before a document is written: against the contract
(`contracts/problem.schema.json`), by `validateProblemPayload`, and against the types of the
problem's own parameters.

* `problemSchema` : the contract.
* `normalizeProblemPayload`, `validateProblemPayload` (`services/problems.service.js`).
* `typeErrors` : the second stage of `validateProblemDefinition` (`services/preview.service.js`).
* `validateArventiqProblemPayload` and the coercions of `syncProblem`
  (`services/arventiq.service.js`).
-/
import JudgePlatform.Api.RunProblem
import JudgePlatform.Judge.DataValidation
import JudgePlatform.Library.JsonSchema

/-! ## Coercions of JavaScript -/

namespace JsValue

/-- `String(x)` for a number. -/
def numberText : Binary64 → String
  | .nan => "NaN"
  | .inf negative => if negative then "-Infinity" else "Infinity"
  | .negZero => "0"
  | x => (JsonNumber.formatFloat x).elim "" fun n => String.ofList n.text

mutual

/-- `String(x)`. -/
def toText : JsValue → String
  | null => "null"
  | bool b => if b then "true" else "false"
  | num x => numberText x
  | str s => s
  | arr xs => ",".intercalate (elementTexts xs)
  | obj _ => "[object Object]"

/-- The texts that an array is joined from. -/
def elementTexts : List JsValue → List String
  | [] => []
  | null :: xs => "" :: elementTexts xs
  | x :: xs => toText x :: elementTexts xs

end

/-- The decimal that a text without a sign spells; the digits before or after the point may be
missing. -/
def readDecimal (cs : List Char) : Option ℚ :=
  let rest := cs.dropWhile Char.isDigit
  let digits := cs.takeWhile Char.isDigit ++ (rest.drop 1).takeWhile Char.isDigit
  let expo := if rest.head? = some '.' then (rest.drop 1).dropWhile Char.isDigit else rest
  if (rest.head? = some '.' ∧ digits ≠ [] ∨ cs.takeWhile Char.isDigit ≠ []) ∧
      Json.isExponent expo then
    some (JsonNumber.readUnsigned cs)
  else none

/-- The digits of a whole number to a base below 37. -/
def readDigits (base : ℕ) (cs : List Char) : Option ℕ :=
  let value (c : Char) : ℕ :=
    if c.isDigit then c.toNat - '0'.toNat else (Text.lowerChar c).toNat - 'a'.toNat + 10
  if cs ≠ [] ∧ cs.all fun c => c.isAlphanum ∧ value c < base then
    some (cs.foldl (fun n c => n * base + value c) 0)
  else none

def ofDecimal (negative : Bool) (cs : List Char) : Binary64 :=
  if cs = "Infinity".toList then .inf negative
  else
    (readDecimal cs).elim .nan fun q => .ofSigned negative (if negative then -q else q)

/-- `Number(x)` for a string without white space at its ends. -/
def readText : List Char → Binary64
  | [] => .zero
  | '0' :: 'x' :: cs | '0' :: 'X' :: cs => (readDigits 16 cs).elim .nan fun n => .ofInt n
  | '0' :: 'o' :: cs | '0' :: 'O' :: cs => (readDigits 8 cs).elim .nan fun n => .ofInt n
  | '0' :: 'b' :: cs | '0' :: 'B' :: cs => (readDigits 2 cs).elim .nan fun n => .ofInt n
  | '-' :: cs => ofDecimal true cs
  | '+' :: cs => ofDecimal false cs
  | cs => ofDecimal false cs

/-- `Number(x)`. -/
def toNumber : JsValue → Binary64
  | null => .zero
  | bool b => if b then .ofInt 1 else .zero
  | num x => x
  | v => readText (Bracketed.trim Judge.jsSpace v.toText.toList)

/-- `Math.round`. -/
def round (x : Binary64) : Binary64 :=
  x.toRat.elim x fun q => .ofSigned x.isNegative ⌊q + 1 / 2⌋

end JsValue

namespace Problems

open JsValue
open Api (Members)
open JsonSchema (text integer number boolean any array object)

/-! ## The contract -/

/-- `/^[A-Za-z_][A-Za-z0-9_]*$/` -/
def isIdentifier (s : String) : Bool :=
  match s.toList with
  | [] => false
  | c :: cs => (c.isAlpha || c = '_') && cs.all fun c => c.isAlphanum || c = '_'

def difficulties : List String := ["Easy", "Medium", "Hard"]

def parameterSchema : JsonSchema :=
  object [("name", text 1 isIdentifier), ("type", text 1 fun _ => true)] ["name", "type"]

def compareConfigSchema : JsonSchema :=
  object [("mode", text 0 (· ∈ ["EXACT", "STRUCTURAL"])), ("floatTolerance", number 0),
    ("orderInsensitive", boolean), ("requireDeepCopy", boolean)] []

def testCaseSchema : JsonSchema :=
  object [("inputs", array 0 any), ("expected", any), ("isSample", boolean), ("isHidden", boolean)]
    ["inputs", "expected"]

def solutionLanguages : List String :=
  ["javascript", "typescript", "python", "java", "go", "cpp", "c", "csharp", "rust", "ruby", "php",
    "kotlin"]

/-- The members that the contract names; `isDateTime` is the format of its dates. -/
def problemProperties (isDateTime : String → Bool) : List (String × JsonSchema) :=
  [("title", text 1 fun _ => true), ("description", text 1 fun _ => true),
    ("difficulty", text 0 (· ∈ difficulties)), ("functionName", text 1 isIdentifier),
    ("parameters", array 1 parameterSchema), ("returnType", text 1 fun _ => true),
    ("timeLimitMs", integer 100), ("memoryLimitMb", integer 32),
    ("compareConfig", compareConfigSchema), ("testCases", array 1 testCaseSchema),
    ("testsJSON", text 0 fun _ => true), ("tags", array 0 (text 0 fun _ => true)),
    ("isPremium", boolean), ("referenceSolution", text 0 fun _ => true),
    ("solutionLanguage", text 0 (· ∈ solutionLanguages)), ("createdAt", text 0 isDateTime)]

def problemSchema (isDateTime : String → Bool) : JsonSchema :=
  object (problemProperties isDateTime)
    ["title", "description", "difficulty", "functionName", "parameters", "returnType", "testCases"]

/-! ## Normalization -/

def trim (s : String) : String := String.ofList (Bracketed.trim Judge.jsSpace s.toList)

/-- A text is trimmed, anything else stays. -/
def trimmed : Option JsValue → Option JsValue
  | some (.str s) => some (.str (trim s))
  | v => v

/-- `o?.k` -/
def chained (o : Option JsValue) (k : String) : Option JsValue := o.bind fun v => (property k v).join

def normalizeParameter (p : JsValue) : Option JsValue := do
  let name ← property "name" p
  let type ← property "type" p
  return .obj (setMembers (spread p) [("name", trimmed name), ("type", trimmed type)])

def normalizeCompareConfig (config : Option JsValue) : JsValue :=
  let mode := chained config "mode"
  let tolerance := (chained config "floatTolerance").elim .nan toNumber
  .obj (setMembers [] [
    ("mode", if truthy mode then mode else some (.str "EXACT")),
    ("floatTolerance", some (.num (if tolerance.toRat.isSome then tolerance else .zero))),
    ("orderInsensitive", some (.bool (truthy (chained config "orderInsensitive"))))])

/-- `x === true` -/
def isTrue (v : Option JsValue) : Bool := v matches some (.bool true)

/-- The members of a normalized test case. -/
def testMembers (inputs expected : Option JsValue) (sample : Bool) : Members :=
  setMembers [] [("inputs", inputs), ("expected", expected), ("isSample", some (.bool sample)),
    ("isHidden", some (.bool !sample))]

def normalizeTest (tc : JsValue) : Option JsValue := do
  let isSample ← property "isSample" tc
  let inputs ← property "inputs" tc
  let expected ← property "expected" tc
  return .obj (testMembers inputs expected (isTrue isSample))

/-- The items of a member that is an array are replaced; `none` is a `TypeError`. -/
def mapMember (k : String) (f : JsValue → Option JsValue) (ms : Members) : Option Members :=
  match lookup ms k with
  | some (.arr xs) => (xs.mapM f).map fun ys => setMember ms k (some (.arr ys))
  | _ => some ms

def normalizeProblemPayload (payload : Members) : Option Members := do
  let normalized := setMembers payload [
    ("title", trimmed (lookup payload "title")),
    ("description", trimmed (lookup payload "description")),
    ("functionName", trimmed (lookup payload "functionName")),
    ("returnType", trimmed (lookup payload "returnType"))]
  let normalized ← mapMember "parameters" normalizeParameter normalized
  let normalized := setMember normalized "compareConfig"
    (some (normalizeCompareConfig (lookup normalized "compareConfig")))
  mapMember "testCases" normalizeTest normalized

/-! ## The checks of the service -/

/-- The text is missing or blank. -/
def isBlank : Option JsValue → Bool
  | some (.str s) => trim s = ""
  | _ => true

/-- A text that is not empty. -/
def isText (v : Option JsValue) : Bool := v matches some (.str _) && truthy v

/-- `list[i]rest` -/
def itemText (list : String) (i : ℕ) (rest : String) : String :=
  list ++ "[" ++ Text.itoa i ++ "]" ++ rest

def identifierErrors (v : Option JsValue) (missing : Bool) (required invalid : String) :
    List String :=
  if missing then [required]
  else
    match v with
    | some (.str s) => if isIdentifier (trim s) then [] else [invalid]
    | _ => []

def difficultyErrors : Option JsValue → List String
  | some (.str s) =>
    if s = "" then ["difficulty is required"]
    else if s ∈ difficulties then []
    else ["difficulty must be Easy, Medium, or Hard"]
  | _ => ["difficulty is required"]

def testErrors (i : ℕ) (tc : JsValue) : List String :=
  (if chained (some tc) "inputs" matches some (.arr _) then []
    else [itemText "testCases" i ".inputs must be an array"]) ++
  match chained (some tc) "expected" with
  | none | some .null => [itemText "testCases" i ".expected is required"]
  | _ => []

def parameterErrors (i : ℕ) (p : JsValue) : List String :=
  let name := chained (some p) "name"
  identifierErrors name (isBlank name) (itemText "parameters" i ".name is required")
      (itemText "parameters" i ".name: invalid format") ++
    if isBlank (chained (some p) "type") then [itemText "parameters" i ".type is required"] else []

def toleranceError := "compareConfig.floatTolerance must be a non-negative number"

def compareConfigErrors (config : Option JsValue) : List String :=
  if truthy config then
    (if truthy (chained config "mode") ∧
        ¬(chained config "mode" matches some (.str "EXACT") | some (.str "STRUCTURAL")) then
      ["compareConfig.mode must be EXACT or STRUCTURAL"] else []) ++
    match chained config "floatTolerance" with
    | none => []
    | some (.num x) => if x.toRat.isNone ∨ x.lt .zero then [toleranceError] else []
    | some _ => [toleranceError]
  else []

def arityErrors (arity i : ℕ) (tc : JsValue) : List String :=
  match chained (some tc) "inputs" with
  | some (.arr xs) =>
    if xs.length = arity then []
    else
      [itemText "testCases" i ".inputs length " ++ Text.itoa xs.length ++
        " does not match parameters length " ++ Text.itoa arity]
  | _ => []

/-- The errors of numbered items, in their order. -/
def numbered (errors : ℕ → JsValue → List String) (xs : List JsValue) : List String :=
  xs.zipIdx.flatMap fun x => errors x.2 x.1

def isMarkedSample (tc : JsValue) : Bool := isTrue (chained (some tc) "isSample")

def sampleErrors (tcs : List JsValue) : List String :=
  if tcs.any isMarkedSample then [] else ["At least one test case must be marked as sample"]

/-- `validateProblemPayload`, for lists of objects. -/
def validateProblemPayload (payload : Members) : List String :=
  let functionName := lookup payload "functionName"
  let testCases := lookup payload "testCases"
  let parameters := lookup payload "parameters"
  (if isBlank (lookup payload "title") then ["title is required"] else []) ++
  ((if isBlank (lookup payload "description") then ["description is required"] else []) ++
  (difficultyErrors (lookup payload "difficulty") ++
  ((match testCases with
    | some (.arr tcs) =>
      (if tcs.isEmpty then ["testCases must contain at least one test case"] else []) ++
        numbered testErrors tcs
    | _ => ["testCases must be an array"]) ++
  (identifierErrors functionName (!isText functionName) "functionName is required"
    "functionName must be a valid identifier" ++
  ((if isText (lookup payload "returnType") then [] else ["returnType is required"]) ++
  ((match parameters with
    | some (.arr ps) =>
      (if ps.isEmpty then ["parameters must contain at least one parameter"] else []) ++
        numbered parameterErrors ps
    | _ => ["parameters must be an array"]) ++
  (compareConfigErrors (lookup payload "compareConfig") ++
  ((match parameters, testCases with
    | some (.arr ps), some (.arr tcs) => numbered (arityErrors ps.length) tcs
    | _, _ => []) ++
  (match testCases with
    | some (.arr tcs) => sampleErrors tcs
    | _ => [])))))))))

/-! ## The types of a problem -/

/-- A text, as `validateData` gets it. -/
def textOf : Option JsValue → Option String
  | some (.str s) => some s
  | _ => none

/-- `${x}` -/
def shown (v : Option JsValue) : String := v.elim "undefined" toText

/-- `isValidType` on any value. -/
def hasValidType (v : Option JsValue) : Bool := (textOf v).any Judge.isValidType

def parameterTypeErrors (ps : List JsValue) : List String :=
  ps.flatMap fun p =>
    if hasValidType (chained (some p) "type") then []
    else
      ["Invalid type string for parameter '" ++ shown (chained (some p) "name") ++ "': " ++
        shown (chained (some p) "type")]

/-- What is wrong with a value of the type, after the text of where it stands. -/
def dataErrors (where_ : String) (data type : Option JsValue) : List String :=
  match Judge.validateData data (textOf type) with
  | .ok () => []
  | .error e => [where_ ++ e]

def testTypeErrors (ps : List JsValue) (returnType : Option JsValue) (i : ℕ) (tc : JsValue) :
    List String :=
  let arity := "Test case [" ++ Text.itoa i ++ "]: expected " ++ Text.itoa ps.length ++
    " inputs, got "
  match chained (some tc) "inputs" with
  | some (.arr xs) =>
    if xs.length ≠ ps.length then [arity ++ Text.itoa xs.length]
    else
      (xs.zip ps).flatMap (fun x =>
        dataErrors ("Test case [" ++ Text.itoa i ++ "] parameter '" ++
          shown (chained (some x.2) "name") ++ "': ") (some x.1) (chained (some x.2) "type")) ++
      dataErrors ("Test case [" ++ Text.itoa i ++ "] expected output: ")
        (chained (some tc) "expected") returnType
  | _ => [arity ++ "undefined"]

/-- The errors of the second stage of `validateProblemDefinition`, for a problem that keeps the
contract. -/
def typeErrors (problem : Members) : List String :=
  match lookup problem "parameters", lookup problem "testCases" with
  | some (.arr ps), some (.arr tcs) =>
    let returnType := lookup problem "returnType"
    let errors := parameterTypeErrors ps ++
      if hasValidType returnType then [] else ["Invalid returnType string: " ++ shown returnType]
    if errors = [] then numbered (testTypeErrors ps returnType) tcs else errors
  | _, _ => ["Type validation crashed: not iterable"]

/-! ## Problems of the partner service -/

/-- The languages that `resolveArventiqLanguage` knows: the keys of `ARVENTIQ_LANGUAGE_MAP`, and
the names in lower case that every object answers to. -/
def arventiqLanguages : List String :=
  ["python", "python3", "javascript", "js", "node", "typescript", "ts", "java", "cpp", "c++", "c",
    "csharp", "c#", "go", "golang", "constructor", "__proto__"]

/-- Of the letters in these words only the ASCII ones have a capital. -/
def isArventiqLanguage (codeLanguage : String) : Bool :=
  String.ofList ((trim codeLanguage).toList.map Char.toLower) ∈ arventiqLanguages

def isMissing (v : Option JsValue) : Bool := v matches none | some .null

def isArventiqTestHidden (tc : JsValue) : Bool :=
  truthy (chained (some tc) "is_hidden") ||
    chained (some tc) "visibility" matches some (.str "hidden")

def arventiqTestErrors (i : ℕ) (tc : JsValue) : List String :=
  (if isMissing (chained (some tc) "input") then
    [itemText "test_cases" i ".input is required"] else []) ++
  if isMissing (chained (some tc) "expected_output") then
    [itemText "test_cases" i ".expected_output is required"] else []

/-- `validateArventiqProblemPayload`; `none` is the `TypeError` of a test case that is null. -/
def validateArventiqProblemPayload (payload : JsValue) : Option (List String) :=
  let field := chained (some payload)
  match payload with
  | .null | .bool _ | .num _ | .str _ => some ["request body must be an object"]
  | _ =>
    let id := if isMissing (field "id") || field "id" matches some (.str "") then
      ["id is required"] else []
    let language :=
      match field "code_language" with
      | some (.str s) =>
        if s = "" then ["code_language is required"]
        else if isArventiqLanguage s then []
        else ["code_language '" ++ s ++ "' is not a supported language"]
      | _ => ["code_language is required"]
    let question := if isText (field "question_text") then [] else ["question_text is required"]
    match field "test_cases" with
    | some (.arr (tc :: tcs)) =>
      if (tc :: tcs).any fun tc => tc matches .null then none
      else
        some (id ++ (language ++ (question ++ (numbered arventiqTestErrors (tc :: tcs) ++
          if (tc :: tcs).all isArventiqTestHidden then
            ["at least one test case must be visible (is_hidden: 0 or visibility !== 'hidden')"]
          else []))))
    | _ => some (id ++ (language ++ (question ++ ["test_cases must be a non-empty array"])))

/-- `x || y` on numbers. -/
def orNumber (x y : Binary64) : Binary64 := if truthy (some (.num x)) then x else y

/-- `Number(o.k)` -/
def numberOf (v : Option JsValue) : Binary64 := v.elim .nan toNumber

/-- `Math.max(1, x)` -/
def atLeastOne (x : Binary64) : Binary64 := if x.le (.ofInt 1) then .ofInt 1 else x

def timeLimitMs (payload : JsValue) : Binary64 :=
  orNumber (numberOf (chained (some payload) "time_limit_ms")) (.ofInt 2000)

def memoryLimitMb (payload : JsValue) : Binary64 :=
  let kb := chained (some payload) "memory_limit_kb"
  if truthy kb then atLeastOne (round ((numberOf kb).div (.ofInt 1024))) else .ofInt 256

/-- `String(x ?? "")` -/
def textOrEmpty (v : Option JsValue) : String := ((orElse v (some (.str ""))).map toText).getD ""

end Problems
