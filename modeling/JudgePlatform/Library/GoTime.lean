/-
# Times in RFC 3339

An instant is the number of nanoseconds since 1970; `format` and `parse` are those
that `encoding/json` uses for a `time.Time`, in UTC and strict about the ranges.
-/
import JudgePlatform.Library.Text

namespace GoTime

/-! ## The calendar -/

def isLeap (y : ℕ) : Bool := y % 4 = 0 ∧ (y % 100 ≠ 0 ∨ y % 400 = 0)

def daysIn (y m : ℕ) : ℕ :=
  match m with
  | 2 => if isLeap y then 29 else 28
  | 4 | 6 | 9 | 11 => 30
  | _ => 31

/-- The days from the start of the year 0 to the start of a year. -/
def daysBeforeYear : ℕ → ℕ
  | 0 => 0
  | y + 1 => 365 * (y + 1) + y / 4 - y / 100 + y / 400 + 1

def daysBeforeMonth (y m : ℕ) : ℕ := ((List.range' 1 (m - 1)).map (daysIn y)).sum

/-- The day of 1970-01-01. -/
def epochDay : ℕ := daysBeforeYear 1970

/-- The nanoseconds since 1970 at a date and a time of day. -/
def instant (y m d hour min sec nanos : ℕ) : ℤ :=
  let day : ℤ := daysBeforeYear y + daysBeforeMonth y m + d - 1 - epochDay
  (((day * 24 + hour) * 60 + min) * 60 + sec) * 1000000000 + nanos

/-- The month of the day `n` of a year and the days before it, from a month on. -/
def monthFrom (y : ℕ) : ℕ → ℕ → ℕ → ℕ × ℕ
  | 0, m, n => (m, n)
  | fuel + 1, m, n => if n < daysIn y m then (m, n) else monthFrom y fuel (m + 1) (n - daysIn y m)

/-- Year, month and day, of the day since the start of the year 0. -/
def civil (day : ℕ) : ℕ × ℕ × ℕ :=
  -- one year off at most
  let near := day * 400 / 146097
  let y := if day < daysBeforeYear near then near - 1
    else if day < daysBeforeYear (near + 1) then near else near + 1
  let md := monthFrom y 11 1 (day - daysBeforeYear y)
  (y, md.1, md.2 + 1)

/-! ## Writing -/

/-- A number in a fixed count of digits. -/
def padded (width n : ℕ) : List Char :=
  List.replicate (width - (Nat.toDigits 10 n).length) '0' ++ Nat.toDigits 10 n

/-- The fraction of a second without the zeros at its end. -/
def fraction (nanos : ℕ) : List Char :=
  if nanos = 0 then [] else '.' :: ((padded 9 nanos).reverse.dropWhile (· = '0')).reverse

/-- `Time.MarshalJSON`; a year that four digits cannot write is an error. -/
def format (t : ℤ) : Option String :=
  let secs := t / 1000000000
  let day := secs / 86400 + epochDay
  let rest := (secs % 86400).toNat
  let (y, m, d) := civil day.toNat
  if day < 0 ∨ 9999 < y then none
  else some (String.ofList (padded 4 y ++ '-' :: (padded 2 m ++ '-' :: (padded 2 d ++ 'T' ::
    (padded 2 (rest / 3600) ++ ':' :: (padded 2 (rest / 60 % 60) ++ ':' ::
      (padded 2 (rest % 60) ++ (fraction (t % 1000000000).toNat ++ ['Z']))))))))

/-! ## Reading -/

/-- A number of fixed width at the front of a text. -/
def number (width : ℕ) (cs : List Char) : Option (ℕ × List Char) :=
  if (cs.take width).length = width then
    (Text.parseNat (cs.take width)).map fun n => (n, cs.drop width)
  else none

/-- A separator. -/
def skip (c : Char) : List Char → Option (List Char)
  | d :: cs => if d = c then some cs else none
  | [] => none

/-- The fraction of a second, cut after nine digits. -/
def nanosOf : List Char → Option (ℕ × List Char)
  | '.' :: cs =>
    let digits := cs.takeWhile Char.isDigit
    (Text.parseNat ((digits ++ List.replicate 9 '0').take 9)).bind fun n =>
      if digits = [] then none else some (n, cs.dropWhile Char.isDigit)
  | cs => some (0, cs)

/-- The offset of a zone in minutes; nothing may follow it. -/
def zone (cs : List Char) : Option ℤ :=
  match cs with
  | ['Z'] => some 0
  | sign :: rest => do
    let (hours, rest) ← number 2 rest
    let rest ← skip ':' rest
    let (minutes, rest) ← number 2 rest
    if rest ≠ [] ∨ 24 ≤ hours ∨ 60 ≤ minutes then none
    else
      match sign with
      | '+' => some (hours * 60 + minutes)
      | '-' => some (-(hours * 60 + minutes))
      | _ => none
  | [] => none

/-- `Time.UnmarshalJSON` on the text between the quotes. -/
def parse (text : String) : Option ℤ := do
  let (y, rest) ← number 4 text.toList
  let rest ← skip '-' rest
  let (m, rest) ← number 2 rest
  let rest ← skip '-' rest
  let (d, rest) ← number 2 rest
  let rest ← skip 'T' rest
  let (hour, rest) ← number 2 rest
  let rest ← skip ':' rest
  let (min, rest) ← number 2 rest
  let rest ← skip ':' rest
  let (sec, rest) ← number 2 rest
  let (nanos, rest) ← nanosOf rest
  let offset ← zone rest
  if m = 0 ∨ 12 < m ∨ d = 0 ∨ daysIn y m < d ∨ 24 ≤ hour ∨ 60 ≤ min ∨ 60 ≤ sec then none
  else some (instant y m d hour min sec nanos - offset * 60000000000)

example : parse "2024-02-29T12:30:05.25Z" = some 1709209805250000000 := by decide +kernel

example : format 1709209805250000000 = some "2024-02-29T12:30:05.25Z" := by decide +kernel

end GoTime
