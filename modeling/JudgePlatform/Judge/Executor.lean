/-
# Errors of the executor

The error values that the judge inspects (`pkg/executor/errors.go` and those of
`context` and `fmt`), their texts, `errors.Is` and `errors.As`, how an exec that
has ended is reported, and the writer that its output goes to
(`pkg/executor/executor.go`).
-/
import JudgePlatform.Library.Text

namespace Judge

/-! ## Error values -/

inductive GoError where
  | errCompilationFailed
  | errTimeLimitExceeded
  | errMemoryLimitExceeded
  | errRuntimeError
  | errContainerUnhealthy
  /-- `context.DeadlineExceeded` -/
  | deadlineExceeded
  /-- `context.Canceled` -/
  | canceled
  | errBatchedOutputLimitExceeded
  /-- An error that only its text is known of. -/
  | other (text : String)
  /-- `*ExecutionError` -/
  | execution (type : GoError) (message : String) (exitCode : ℤ)
  /-- `fmt.Errorf` with a `%w` between two texts. -/
  | wrap (before : String) (err : GoError) (after : String)
  deriving DecidableEq

namespace GoError

/-- `err.Error()`. -/
def text : GoError → String
  | errCompilationFailed => "compilation failed"
  | errTimeLimitExceeded => "time limit exceeded"
  | errMemoryLimitExceeded => "memory limit exceeded"
  | errRuntimeError => "runtime error"
  | errContainerUnhealthy => "container unhealthy"
  | deadlineExceeded => "context deadline exceeded"
  | canceled => "context canceled"
  | errBatchedOutputLimitExceeded => "batched wrapper output exceeded limit"
  | other text => text
  | execution type message exitCode =>
    if message ≠ "" then type.text ++ ": " ++ message
    else if exitCode ≠ 0 then type.text ++ " (exit code " ++ Text.itoa exitCode ++ ")"
    else type.text
  | wrap before err after => before ++ err.text ++ after

/-- `errors.Is(err, target)` for a target that is a variable of a package. -/
def is (err target : GoError) : Bool :=
  err = target ||
    match err with
    | execution type _ _ => type.is target
    | wrap _ inner _ => inner.is target
    | _ => false

/-- `errors.As(err, *ExecutionError)`: the type and the message of the first one. -/
def asExecution : GoError → Option (GoError × String)
  | execution type message _ => some (type, message)
  | wrap _ err _ => asExecution err
  | _ => none

end GoError

/-! ## How an exec ends -/

/-- The end of an exec: its exit code, or that it ran into its timeout (`timeout` is
the text of the duration), or an error of the Docker client. -/
inductive ExecEnd where
  | exited (exitCode : ℤ)
  | timedOut (timeout : String)
  | failed (err : GoError)
  deriving DecidableEq

/-- What `runExecStreamWithTimeout` sends to the waiter: exit code and error. -/
def execWaitResult : ExecEnd → ℤ × Option GoError
  | .exited exitCode =>
    if exitCode ≠ 0 then
      if exitCode = 137 then
        (exitCode, some (.execution .errMemoryLimitExceeded "process killed (possibly OOM)" exitCode))
      else
        (exitCode, some (.execution .errRuntimeError ("exit code " ++ Text.itoa exitCode) exitCode))
    else (exitCode, none)
  | .timedOut timeout =>
    (0, some (.execution .errTimeLimitExceeded ("execution timed out after " ++ timeout) (-1)))
  | .failed err => (0, some err)

/-! ## The output of an exec -/

/-- Keeps up to `limit` bytes and drops the rest without a word. -/
structure BoundedWriter where
  buf : List UInt8 := []
  limit : ℤ

namespace BoundedWriter

/-- `Write`: the number of bytes that it reports, its error, and the writer after it. -/
def write (w : BoundedWriter) (p : List UInt8) : (ℕ × Option GoError) × BoundedWriter :=
  let remaining := w.limit - w.buf.length
  let w :=
    if 0 < remaining then
      let remaining := if p.length < remaining then (p.length : ℤ) else remaining
      { w with buf := w.buf ++ p.take remaining.toNat }
    else w
  ((p.length, none), w)

/-- A sequence of writes. -/
def writeAll (w : BoundedWriter) : List (List UInt8) → List (ℕ × Option GoError) × BoundedWriter
  | [] => ([], w)
  | p :: ps => ((w.write p).1 :: ((w.write p).2.writeAll ps).1, ((w.write p).2.writeAll ps).2)

theorem write_limit (w : BoundedWriter) (p : List UInt8) : (w.write p).2.limit = w.limit := by
  unfold write
  dsimp only
  split_ifs <;> rfl

/-- One write continues the text, and what is beyond the limit is cut off. -/
theorem write_buf {w : BoundedWriter} {text : List UInt8} {limit : ℕ} (hlimit : w.limit = limit)
    (hbuf : w.buf = text.take limit) (p : List UInt8) :
    (w.write p).2.buf = (text ++ p).take limit := by
  have hlength : w.buf.length = min limit text.length := by
    rw [hbuf, List.length_take]
  unfold write
  rw [hlimit]
  simp only
  split_ifs with hroom hfits
  · -- the write fits into what remains
    simp only [hbuf, Int.toNat_natCast, List.take_length]
    rw [List.take_of_length_le (by omega), List.take_of_length_le]
    rw [List.length_append]
    omega
  · -- it straddles the limit, or ends at it
    simp only [hbuf]
    rw [List.take_append, List.take_of_length_le (by omega)]
    congr 2
    omega
  · -- the limit was reached before
    rw [hbuf, List.take_append, Nat.sub_eq_zero_of_le (by omega), List.take_zero, List.append_nil]

theorem writeAll_buf {w : BoundedWriter} {text : List UInt8} {limit : ℕ}
    (hlimit : w.limit = limit) (hbuf : w.buf = text.take limit) (ps : List (List UInt8)) :
    (w.writeAll ps).2.buf = (text ++ ps.flatten).take limit := by
  induction ps generalizing w text with
  | nil => rw [writeAll, List.flatten_nil, List.append_nil, hbuf]
  | cons p ps ih =>
    rw [writeAll, List.flatten_cons, ← List.append_assoc]
    apply ih
    · rw [write_limit, hlimit]
    · exact write_buf hlimit hbuf p

theorem writeAll_reports (w : BoundedWriter) (ps : List (List UInt8)) :
    (w.writeAll ps).1 = ps.map fun p => (p.length, none) := by
  induction ps generalizing w with
  | nil => rfl
  | cons p ps ih =>
    rw [writeAll, List.map_cons, ih]
    rfl

/-- **A bounded writer keeps a prefix** of all that is written, up to its limit, and reports
each write as done. -/
theorem writes_keep_prefix (limit : ℕ) (ps : List (List UInt8)) :
    let w : BoundedWriter := { limit := limit }
    (w.writeAll ps).2.buf = ps.flatten.take (min limit (ps.map List.length).sum) ∧
      (w.writeAll ps).1 = ps.map fun p => (p.length, none) := by
  intro w
  refine ⟨?_, w.writeAll_reports ps⟩
  have hbuf := @writeAll_buf w [] limit rfl List.take_nil.symm ps
  rw [hbuf, List.nil_append, ← List.length_flatten]
  rcases le_total limit ps.flatten.length with h | h
  · rw [min_eq_left h]
  · rw [min_eq_right h, List.take_length, List.take_of_length_le h]

example : (({ limit := 3 } : BoundedWriter).writeAll [[1, 2], [3, 4], [5]]).2.buf = [1, 2, 3] := by
  decide

end BoundedWriter

end Judge
