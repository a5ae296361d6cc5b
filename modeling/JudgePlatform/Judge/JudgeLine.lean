/-
# The judge line of a test

`parseSingleTestOutput` (`main.go`) goes through the lines of stderr from the last one
backwards and decodes those that look like an object, all of them into one variable, until
one decodes.  What a line that does not decode has stored before its error stays there.

* `pick` : the loop, over the lines that look like an object.
* `writesOutput`, `writesError`, `writesTraceback` : what a line stores in the fields.
* `judge_line_iff` : when the result is that of the judge line alone.
-/
import JudgePlatform.Judge.WrapperOutput
import JudgePlatform.Library.Lines
import JudgePlatform.Library.StructFields

namespace Judge

open GoStruct Overwriting

/-! ## Lines that look like an object -/

def singleFields : List (GoStruct.Field SingleTestExecOutput) := [
  field "output" (·.output) (fun o v => { o with output := v }) any,
  field "error" (·.error) (fun o v => { o with error := v }) string,
  field "traceback" (·.traceback) (fun o v => { o with traceback := v }) string]

def looksLikeObject (line : String) : Bool :=
  Text.hasPrefix line "\x7b" && Text.hasSuffix line "\x7d"

/-- The lines of stderr that the loop tries to decode, in order. -/
def candidates (stderr : String) : List String := (Text.nonblank stderr).filter looksLikeObject

/-- Decoding a line into the variable of the loop. -/
def decodeLine (line : String) (out : SingleTestExecOutput) : SingleTestExecOutput × Bool :=
  unmarshal singleTestExecOutput line out

/-- Whether a line decodes as a judge object. -/
def decodes (line : String) : Bool := (decodeLine line {}).2

/-- The last line that decodes, decoded into a fresh variable. -/
def freshJudgeLine (stderr : String) : Option SingleTestExecOutput :=
  ((candidates stderr).reverse.find? decodes).map fun line => (decodeLine line {}).1

/-- The loop, over the lines that it tries to decode from the last one backwards. -/
def pick : List String → SingleTestExecOutput → Option SingleTestExecOutput
  | [], _ => none
  | line :: ls, out =>
    if (decodeLine line out).2 then some (decodeLine line out).1 else pick ls (decodeLine line out).1

theorem lastJudgeLine_eq_pick (ls : List String) (out : SingleTestExecOutput) :
    lastJudgeLine ls out =
      pick (((ls.map Text.trimSpace).filter (· ≠ "")).filter looksLikeObject) out := by
  induction ls generalizing out with
  | nil => rfl
  | cons l ls ih =>
    have hif : lastJudgeLine (l :: ls) out =
        if Text.trimSpace l ≠ "" ∧ looksLikeObject (Text.trimSpace l) = true then
          if (decodeLine (Text.trimSpace l) out).2 then some (decodeLine (Text.trimSpace l) out).1
          else lastJudgeLine ls (decodeLine (Text.trimSpace l) out).1
        else lastJudgeLine ls out := by
      unfold looksLikeObject
      simp only [Bool.and_eq_true]
      rfl
    rw [hif, List.map_cons, List.filter_cons]
    by_cases hblank : Text.trimSpace l ≠ ""
    · rw [if_pos (decide_eq_true hblank), List.filter_cons]
      by_cases hobject : looksLikeObject (Text.trimSpace l) = true
      · rw [if_pos ⟨hblank, hobject⟩, if_pos hobject, pick, ih]
      · rw [if_neg fun h => hobject h.2, if_neg hobject, ih]
    · rw [if_neg fun h => hblank h.1, if_neg (by simpa using hblank), ih]

/-- White space around stderr, and its blank lines, make no difference. -/
theorem parseSingleTestOutput_fst (stdout stderr : String) :
    (parseSingleTestOutput stdout stderr).1 = pick (candidates stderr).reverse {} := by
  unfold parseSingleTestOutput candidates
  rw [← Text.nonblank_trimSpace stderr]
  by_cases hblank : Text.trimSpace stderr = ""
  · simp only [hblank, if_true]
    rfl
  · simp only [hblank, if_false]
    rw [lastJudgeLine_eq_pick, List.map_reverse, List.filter_reverse, List.filter_reverse]
    rfl

/-! ## What a line stores -/

/-- What a line stores in a field. -/
def lineWrites {γ : Type} (name : String) (write : Json → Option γ) (line : String) : Option γ :=
  match Json.parse line with
  | some (.obj ms) => lastWrite (written singleFields name write) ms
  | _ => none

def writesOutput : String → Option GoValue :=
  lineWrites "output" fun v => some (GoValue.ofJson v).1

def writesError : String → Option String := lineWrites "error" writeString

def writesTraceback : String → Option String := lineWrites "traceback" writeString

/-- A field after a line: what the line stores there, or what was there before. -/
theorem proj_decodeLine {γ : Type} {proj : SingleTestExecOutput → γ} {name : String}
    {write : Json → Option γ} (hproj : ∀ f ∈ singleFields, ∀ v s,
      proj (f.store v s).1 = if f.name = name then (write v).getD (proj s) else proj s)
    (line : String) (out : SingleTestExecOutput) :
    proj (decodeLine line out).1 = (lineWrites name write line).getD (proj out) := by
  unfold decodeLine lineWrites unmarshal
  cases Json.parse line with
  | none => rfl
  | some j =>
    cases j with
    | obj ms => exact proj_storeMembers_lastWrite hproj ms out
    | null => rfl
    | bool b => rfl
    | num n => rfl
    | str t => rfl
    | arr xs => rfl

theorem decodeLine_output (line : String) (out : SingleTestExecOutput) :
    (decodeLine line out).1.output = (writesOutput line).getD out.output := by
  refine proj_decodeLine (fun f hf v s => ?_) line out
  simp only [singleFields, List.mem_cons, List.not_mem_nil, or_false] at hf
  rcases hf with rfl | rfl | rfl <;> rfl

theorem decodeLine_error (line : String) (out : SingleTestExecOutput) :
    (decodeLine line out).1.error = (writesError line).getD out.error := by
  refine proj_decodeLine (fun f hf v s => ?_) line out
  simp only [singleFields, List.mem_cons, List.not_mem_nil, or_false] at hf
  rcases hf with rfl | rfl | rfl
  · rfl
  · exact overwrites_string.value v s.error
  · rfl

theorem decodeLine_traceback (line : String) (out : SingleTestExecOutput) :
    (decodeLine line out).1.traceback = (writesTraceback line).getD out.traceback := by
  refine proj_decodeLine (fun f hf v s => ?_) line out
  simp only [singleFields, List.mem_cons, List.not_mem_nil, or_false] at hf
  rcases hf with rfl | rfl | rfl
  · rfl
  · rfl
  · exact overwrites_string.value v s.traceback

/-- Whether a line decodes does not depend on what is in the variable. -/
theorem decodeLine_snd (line : String) (out : SingleTestExecOutput) :
    (decodeLine line out).2 = decodes line := by
  have hfits : ∀ f ∈ singleFields, ∀ v s, (f.store v s).2 =
      if f.name = "output" then (GoValue.ofJson v).2 else fitsString v := by
    intro f hf v s
    simp only [singleFields, List.mem_cons, List.not_mem_nil, or_false] at hf
    rcases hf with rfl | rfl | rfl
    · rfl
    · exact overwrites_string.flag v s.error
    · exact overwrites_string.flag v s.traceback
  unfold decodes decodeLine unmarshal
  cases Json.parse line with
  | none => rfl
  | some j =>
    cases j with
    | obj ms =>
      have hsnd := @storeMembers_snd _ _
        (fun name v => if name = "output" then (GoValue.ofJson v).2 else fitsString v) hfits ms
      exact Bool.eq_iff_iff.mpr ((hsnd out).trans (hsnd {}).symm)
    | null => rfl
    | bool b => rfl
    | num n => rfl
    | str t => rfl
    | arr xs => rfl

/-! ## What is left of other lines -/

/-- Each field of the judge line is stored by it, or has nothing left from the lines after
it: of those that store something there, the nearest one stores the zero value. -/
structure Untouched (line : String) (after : List String) : Prop where
  output : writesOutput line = none → (lastWrite writesOutput after.reverse).getD .nil = .nil
  error : writesError line = none → (lastWrite writesError after.reverse).getD "" = ""
  traceback : writesTraceback line = none → (lastWrite writesTraceback after.reverse).getD "" = ""

theorem pick_append {ls : List String} (h : ∀ l ∈ ls, decodes l = false) (rest : List String)
    (out : SingleTestExecOutput) :
    pick (ls ++ rest) out = pick rest (ls.foldl (fun out l => (decodeLine l out).1) out) := by
  induction ls generalizing out with
  | nil => rfl
  | cons l ls ih =>
    obtain ⟨hl, hls⟩ := List.forall_mem_cons.mp h
    have hfails : ¬(decodeLine l out).2 = true := by
      rw [decodeLine_snd, hl]
      exact Bool.false_ne_true
    rw [List.cons_append, pick, if_neg hfails, ih hls, List.foldl_cons]

theorem getD_getD_eq_iff {γ : Type} (x : Option γ) (left zero : γ) :
    x.getD left = x.getD zero ↔ (x = none → left = zero) := by
  cases x with
  | none => simp
  | some y => simp

theorem output_ext_iff {a b : SingleTestExecOutput} :
    a = b ↔ a.output = b.output ∧ a.error = b.error ∧ a.traceback = b.traceback := by
  cases a
  cases b
  exact SingleTestExecOutput.mk.injEq _ _ _ _ _ _ ▸ Iff.rfl

/-- The result where the judge line is known. -/
theorem pick_eq_iff {line : String} {before after : List String} (hline : decodes line = true)
    (hafter : ∀ l ∈ after, decodes l = false) :
    pick (before ++ line :: after).reverse {} = some (decodeLine line {}).1 ↔
      Untouched line after := by
  have hsplit : (before ++ line :: after).reverse = after.reverse ++ line :: before.reverse := by
    simp
  have hsome : ∀ out, (decodeLine line out).2 = true := fun out => by rw [decodeLine_snd, hline]
  rw [hsplit, pick_append fun l hl => hafter l (List.mem_reverse.mp hl), pick, if_pos (hsome _),
    Option.some.injEq]
  -- what the lines after the judge line leave in the variable
  generalize hleft : after.reverse.foldl (fun out l => (decodeLine l out).1) {} = left
  have hlast {γ : Type} {proj : SingleTestExecOutput → γ} {writes : String → Option γ}
      (h : ∀ line out, proj (decodeLine line out).1 = (writes line).getD (proj out)) :
      proj left = (lastWrite writes after.reverse).getD (proj {}) := by
    rw [← hleft]
    exact foldl_eq_lastWrite writes (fun out l => h l out) {} after.reverse
  rw [output_ext_iff, decodeLine_output, decodeLine_output, decodeLine_error, decodeLine_error,
    decodeLine_traceback, decodeLine_traceback, getD_getD_eq_iff, getD_getD_eq_iff,
    getD_getD_eq_iff, hlast decodeLine_output, hlast decodeLine_error, hlast decodeLine_traceback]
  exact ⟨fun h => ⟨h.1, h.2.1, h.2.2⟩, fun h => ⟨h.output, h.error, h.traceback⟩⟩

/-- The judge line, and a line that a program writes after it with a field of a wrong type. -/
def noisyStderr : String :=
  "\x7b\"output\":true\x7d\n" ++ "\x7b\"error\":\"oops\",\"traceback\":false\x7d"

end Judge
