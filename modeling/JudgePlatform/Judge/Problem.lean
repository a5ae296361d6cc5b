/-
# Problems and test cases

The part of the problem record (`pkg/models/problem.go`) that running a submission
reads.
-/
import JudgePlatform.Judge.Comparator
import JudgePlatform.Library.GoStruct

namespace Judge

/-- A test case; `none` is the nil slice of inputs. -/
structure TestCase where
  input : Option (List GoValue) := none
  expected : GoValue := .nil
  isSample : Bool := false
  isHidden : Bool := false

/-- The inputs as the `interface{}` that a test result holds. -/
def TestCase.inputValue (tc : TestCase) : GoValue :=
  match tc.input with
  | none => .nilSlice
  | some xs => .slice xs

structure Parameter where
  name : String := ""
  type : String := ""

/-- A programming problem. -/
structure Problem where
  title : String := ""
  description : String := ""
  problemType : String := ""
  functionName : String := ""
  parameters : List Parameter := []
  returnType : String := ""
  timeLimitMs : ℤ := 0
  memoryLimitMb : ℤ := 0
  compareConfig : CompareConfig := {}
  testCases : List TestCase := []
  testsJSON : String := ""

end Judge
