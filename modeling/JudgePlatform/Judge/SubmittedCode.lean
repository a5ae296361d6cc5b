/-
# The code that is executed

The adapters for Python and JavaScript (`pkg/central/adapters`) put the submitted code in
the place of a marker in a wrapper, the stdin runner writes it to a file of its own, and all
three unescape it first (`UnescapeCode` of `pkg/util`).  The adapters for C, C++ and Java
write it as it is.

* `unescapeCode_eq_self_iff` : which code is left as it is.
* `insertPython_eq`, `insertJavaScript_eq` : where the code stands in a wrapper.
* `code_kept_iff` : when what is executed is what was submitted.
-/
import JudgePlatform.Library.Replacing

namespace Judge

open Replacing

/-! ## Escape sequences -/

/-- `UnescapeCode`, on the characters of a text. -/
def unescapeCode (s : List Char) : List Char :=
  if s = [] then s
  else
    let s := replaceAll ['\\', '\\'] ['\\'] s
    let s := replaceAll ['\\', 'r', '\\', 'n'] ['\n'] s
    let s := replaceAll ['\\', 'n'] ['\n'] s
    replaceAll ['\\', 't'] ['\t'] s

/-- Code in which no backslash stands before a backslash, an `n` or a `t`. -/
structure Plain (code : List Char) : Prop where
  backslash : ¬['\\', '\\'] <:+: code
  newline : ¬['\\', 'n'] <:+: code
  tab : ¬['\\', 't'] <:+: code

/-- **Code is left as it is just when it is plain.** -/
theorem unescapeCode_eq_self_iff (code : List Char) : unescapeCode code = code ↔ Plain code := by
  have hunescape : unescapeCode code =
      replaceAll ['\\', 't'] ['\t'] (replaceAll ['\\', 'n'] ['\n']
        (replaceAll ['\\', 'r', '\\', 'n'] ['\n'] (replaceAll ['\\', '\\'] ['\\'] code))) := by
    unfold unescapeCode
    split_ifs with h
    · rw [h]
      rfl
    · rfl
  have hcrlf : ['\\', 'r', '\\', 'n'] <:+: code → ['\\', 'n'] <:+: code :=
    fun h => List.IsInfix.trans ⟨['\\', 'r'], [], rfl⟩ h
  constructor
  · intro h
    have hlength := congrArg List.length (hunescape.symm.trans h)
    -- no replacement makes the text longer, so none of them makes it shorter
    have hreturn := @length_replaceAll_le _ _ ['\\', 'r', '\\', 'n'] ['\n'] (by decide)
    have hnewline := @length_replaceAll_le _ _ ['\\', 'n'] ['\n'] (by decide)
    have htab := @length_replaceAll_le _ _ ['\\', 't'] ['\t'] (by decide)
    have hplain : ¬['\\', '\\'] <:+: code := by
      intro hmem
      have hlt := @length_replaceAll_lt _ _ ['\\', '\\'] ['\\'] _ (by decide) hmem
      have hle := (htab _).trans ((hnewline _).trans (hreturn (replaceAll ['\\', '\\'] ['\\'] code)))
      omega
    rw [replaceAll_eq_self hplain] at hlength
    have hplain' : ¬['\\', 'n'] <:+: code := by
      intro hmem
      -- either replacement that looks for an `n` makes the text shorter
      by_cases hboth : ['\\', 'r', '\\', 'n'] <:+: code
      · have hlt := @length_replaceAll_lt _ _ _ ['\n'] _ (by decide) hboth
        have hle := (htab _).trans
          (hnewline (replaceAll ['\\', 'r', '\\', 'n'] ['\n'] code))
        omega
      · rw [replaceAll_eq_self hboth] at hlength
        have hlt := @length_replaceAll_lt _ _ _ ['\n'] _ (by decide) hmem
        have hle := htab (replaceAll ['\\', 'n'] ['\n'] code)
        omega
    rw [replaceAll_eq_self fun h => hplain' (hcrlf h), replaceAll_eq_self hplain'] at hlength
    refine ⟨hplain, hplain', fun hmem => ?_⟩
    have hlt := @length_replaceAll_lt _ _ _ ['\t'] _ (by decide) hmem
    omega
  · rintro ⟨hbackslash, hnewline, htab⟩
    rw [hunescape, replaceAll_eq_self hbackslash,
      replaceAll_eq_self fun h => hnewline (hcrlf h), replaceAll_eq_self hnewline,
      replaceAll_eq_self htab]

/-! ## Files -/

def slashMarker : List Char := "// USER_CODE_MARKER".toList

def hashMarker : List Char := "# USER_CODE_MARKER".toList

/-- What the Python adapter makes of a wrapper and the code to put into it. -/
def insertPython (wrapperCode code : List Char) : List Char :=
  let finalCode := replaceFirst slashMarker code wrapperCode
  replaceFirst hashMarker code finalCode

/-- What the JavaScript adapter makes of them. -/
def insertJavaScript (wrapperCode code : List Char) : List Char :=
  replaceFirst slashMarker code wrapperCode

/-- `wrapper.py`. -/
def pythonFile (wrapperCode code : List Char) : List Char :=
  insertPython wrapperCode (unescapeCode code)

/-- `wrapper.js`. -/
def javaScriptFile (wrapperCode code : List Char) : List Char :=
  insertJavaScript wrapperCode (unescapeCode code)

/-- The file of a program in the stdin mode. -/
def stdinFile (code : List Char) : List Char := unescapeCode code

/-- `solution.c`, `solution.cpp` and `Solution.java`. -/
def solutionFile (code : List Char) : List Char := code

/-- A wrapper with a marker at the beginning of a line, before which there is none; what
comes after it may hold the data of a problem. -/
structure Wrapper (marker : List Char) where
  lines : List Char
  tail : List Char
  noHash : ¬hashMarker <:+: lines ++ ['\n']
  noSlash : ¬slashMarker <:+: lines ++ ['\n']

namespace Wrapper

variable {marker : List Char}

/-- The text before the marker. -/
def head (w : Wrapper marker) : List Char := w.lines ++ ['\n']

def text (w : Wrapper marker) : List Char := w.head ++ (marker ++ w.tail)

/-- No word without a line feed begins in the text before the marker and goes on after it. -/
theorem not_suffix_head (w : Wrapper marker) {word : List Char} (h : '\n' ∉ word) (k : ℕ)
    (hk : 0 < k) (hlt : k < word.length) : ¬word.take k <:+ w.head := by
  intro hsuffix
  have hne : word.take k ≠ [] := by
    intro hnil
    have hlength := congrArg List.length hnil
    rw [List.length_take, List.length_nil] at hlength
    omega
  -- the text before the marker ends with a line feed
  have hlast := hsuffix.getLast hne
  unfold head at hlast
  rw [List.getLast_concat] at hlast
  have hmem := List.getLast_mem hne
  rw [hlast] at hmem
  exact h (List.mem_of_mem_take hmem)

end Wrapper

/-- **Where the code stands in a wrapper for JavaScript.** -/
theorem insertJavaScript_eq (w : Wrapper slashMarker) (code : List Char) :
    insertJavaScript w.text code = w.head ++ (code ++ w.tail) := by
  have hslash : ¬slashMarker <:+: w.head := w.noSlash
  unfold insertJavaScript Wrapper.text
  rw [replaceFirst_append hslash (w.not_suffix_head (by decide +kernel)),
    replaceFirst_self (by decide +kernel)]

/-- **Where it stands in a wrapper for Python.** -/
theorem insertPython_eq (w : Wrapper hashMarker) (code : List Char) :
    insertPython w.text code = w.head ++ (code ++ replaceFirst slashMarker code w.tail) := by
  have hslash : ¬slashMarker <:+: w.head := w.noSlash
  have hhash : ¬hashMarker <:+: w.head := w.noHash
  -- the marker of the other language does not begin inside this one
  have hbegins : ∀ k < slashMarker.length, 0 < k → ¬slashMarker.take k <:+ hashMarker := by
    decide +kernel
  have hinside : replaceFirst slashMarker code (hashMarker ++ w.tail) =
      hashMarker ++ replaceFirst slashMarker code w.tail :=
    replaceFirst_append (by decide +kernel) fun k hk hlt => hbegins k hlt hk
  unfold insertPython Wrapper.text
  simp only
  rw [replaceFirst_append hslash (w.not_suffix_head (by decide +kernel)), hinside,
    replaceFirst_append hhash (w.not_suffix_head (by decide +kernel)),
    replaceFirst_self (by decide +kernel)]

/-- Different code makes different files. -/
theorem insertJavaScript_injective (w : Wrapper slashMarker) :
    Function.Injective (insertJavaScript w.text) := by
  intro code code' h
  simp only [insertJavaScript_eq] at h
  exact List.append_cancel_right (List.append_cancel_left h)

theorem insertPython_injective (w : Wrapper hashMarker) :
    Function.Injective (insertPython w.text) := by
  intro code code' h
  simp only [insertPython_eq] at h
  have hrest := List.append_cancel_left h
  rcases replaceFirst_cases slashMarker w.tail with htail | ⟨before, after, -, htail⟩
  · rw [htail, htail] at hrest
    exact List.append_cancel_right hrest
  · -- the code stands in the file twice, so both codes are of one length
    rw [htail, htail] at hrest
    have hlength := congrArg List.length hrest
    simp only [List.length_append] at hlength
    exact (List.append_inj hrest (by omega)).1

/-- **When the code that is executed is the code that was submitted**, as in C, C++ and Java:
if no backslash in it stands before a backslash, an `n` or a `t`; and programs of that kind
that differ are not judged as one. -/
theorem code_kept_iff (python : Wrapper hashMarker) (javaScript : Wrapper slashMarker)
    (code : List Char) :
    (pythonFile python.text code = insertPython python.text (solutionFile code) ↔ Plain code) ∧
      (javaScriptFile javaScript.text code = insertJavaScript javaScript.text (solutionFile code) ↔
        Plain code) ∧
      (stdinFile code = solutionFile code ↔ Plain code) ∧
      (Plain code → ∀ code', Plain code' → code ≠ code' →
        pythonFile python.text code ≠ pythonFile python.text code' ∧
          javaScriptFile javaScript.text code ≠ javaScriptFile javaScript.text code' ∧
          stdinFile code ≠ stdinFile code') := by
  unfold pythonFile javaScriptFile stdinFile solutionFile
  refine ⟨?_, ?_, unescapeCode_eq_self_iff code, fun hcode code' hcode' hne => ?_⟩
  · rw [(insertPython_injective python).eq_iff, unescapeCode_eq_self_iff]
  · rw [(insertJavaScript_injective javaScript).eq_iff, unescapeCode_eq_self_iff]
  · rw [(unescapeCode_eq_self_iff code).mpr hcode, (unescapeCode_eq_self_iff code').mpr hcode']
    exact ⟨(insertPython_injective python).ne hne, (insertJavaScript_injective javaScript).ne hne, hne⟩

/-- `print("a\nb")` and the program with a line feed between the quotes. -/
theorem escaped_newline_lost :
    let escaped := "print(\"a\\nb\")".toList
    let broken := "print(\"a\nb\")".toList
    escaped ≠ broken ∧ stdinFile escaped ≠ escaped ∧ stdinFile escaped = stdinFile broken ∧
      ∀ (python : Wrapper hashMarker) (javaScript : Wrapper slashMarker),
        pythonFile python.text escaped = pythonFile python.text broken ∧
          javaScriptFile javaScript.text escaped = javaScriptFile javaScript.text broken := by
  have hsame : unescapeCode "print(\"a\\nb\")".toList = unescapeCode "print(\"a\nb\")".toList := by
    decide +kernel
  refine ⟨by decide +kernel, by decide +kernel, hsame, fun python javaScript => ?_⟩
  unfold pythonFile javaScriptFile
  rw [hsame]
  exact ⟨rfl, rfl⟩

end Judge
