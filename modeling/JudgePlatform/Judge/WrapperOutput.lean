/-
# Output of the wrappers

The wrapper around a student's function reports its results on stderr, one JSON
object a line.  In the per-test mode the judge takes the last line it can decode
(`parseSingleTestOutput` in `main.go`); in the batched mode it reads all lines in
order (`appendBatchedResults` in `central_runner.go`).
-/
import JudgePlatform.Library.GoStruct

namespace Judge

open GoStruct

structure SingleTestExecOutput where
  output : GoValue := .nil
  error : String := ""
  traceback : String := ""

def singleTestExecOutput : Decoder SingleTestExecOutput :=
  struct [
    field "output" (·.output) (fun o v => { o with output := v }) any,
    field "error" (·.error) (fun o v => { o with error := v }) string,
    field "traceback" (·.traceback) (fun o v => { o with traceback := v }) string]

structure BatchedTestExecOutput where
  test : ℤ := 0
  output : GoValue := .nil
  error : String := ""
  traceback : String := ""
  fatal : String := ""

def batchedTestExecOutput : Decoder BatchedTestExecOutput :=
  struct [
    field "test" (·.test) (fun o v => { o with test := v }) int,
    field "output" (·.output) (fun o v => { o with output := v }) any,
    field "error" (·.error) (fun o v => { o with error := v }) string,
    field "traceback" (·.traceback) (fun o v => { o with traceback := v }) string,
    field "fatal" (·.fatal) (fun o v => { o with fatal := v }) string]

/-- The loop of `parseSingleTestOutput` over the lines from the last to the first.
`out` is one variable: a line that fails to decode may leave fields in it. -/
def lastJudgeLine : List String → SingleTestExecOutput → Option SingleTestExecOutput
  | [], _ => none
  | l :: ls, out =>
    let line := Text.trimSpace l
    if line ≠ "" ∧ Text.hasPrefix line "\x7b" ∧ Text.hasSuffix line "\x7d" then
      let r := unmarshal singleTestExecOutput line out
      if r.2 then some r.1 else lastJudgeLine ls r.1
    else lastJudgeLine ls out

/-- The judge's result in stderr, if there is one, and the user's output in stdout. -/
def parseSingleTestOutput (stdout stderr : String) : Option SingleTestExecOutput × String :=
  let trimmedStderr := Text.trimSpace stderr
  if trimmedStderr = "" then (none, Text.trimSpace stdout)
  else (lastJudgeLine (Text.lines trimmedStderr).reverse {}, Text.trimSpace stdout)

/-- What the batched mode decodes from one line, if it is a judge line. -/
def judgeLine (l : String) : Option BatchedTestExecOutput :=
  let line := Text.trimSpace l
  if line = "" ∨ ¬Text.hasPrefix line "\x7b" then none
  else
    let r := unmarshal batchedTestExecOutput line {}
    if r.2 then some r.1 else none

/-- The decodable judge lines of a stderr stream, in order. -/
def judgeLines (stderr : String) : List BatchedTestExecOutput :=
  (Text.lines stderr).filterMap judgeLine

end Judge
