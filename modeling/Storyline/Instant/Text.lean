import Storyline.Instant
import Storyline.Text
import Storyline.Number.Nearest

/-!
The text of instants. They are written as RFC 3339 has it, in universal time, with as few groups
of three fraction digits as lose nothing. Reading is laxer: blanks may stand around the parts of
the date and of the time, a blank may part the two, years may carry a sign and any number of
digits, and offsets from universal time are taken away.
-/

namespace Storyline.Instant

/-! ### Writing -/

/-- A number in at least that many digits, zeros in front. -/
def padded (width n : Nat) : String :=
  let digits := Nat.toDigits 10 n
  String.ofList (List.replicate (width - digits.length) '0' ++ digits)

/-- Years of up to four digits are written in four, others with their sign. -/
def yearText (year : Int) : String :=
  if 0 ≤ year && year ≤ 9999 then padded 4 year.toNat
  else (if year < 0 then "-" else "+") ++ padded 4 year.natAbs

def dayText (d : CalendarDay) : String :=
  yearText d.year ++ "-" ++ padded 2 d.month ++ "-" ++ padded 2 d.day

/-- The fraction of a second in 0, 3, 6 or 9 digits. -/
def fractionText (nanos : Nat) : String :=
  if nanos = 0 then ""
  else if nanos % 1000000 = 0 then "." ++ padded 3 (nanos / 1000000)
  else if nanos % 1000 = 0 then "." ++ padded 6 (nanos / 1000)
  else "." ++ padded 9 nanos

/-- The time of day; a leap second is the second number 60. -/
def timeText (t : Instant) : String :=
  let s := t.secondOfDay
  let leap := t.nanos / 1000000000
  padded 2 (s / 3600) ++ ":" ++ padded 2 (s / 60 % 60) ++ ":" ++ padded 2 (s % 60 + leap)
    ++ fractionText (t.nanos % 1000000000)

/-- The RFC 3339 text of an instant. -/
def text (t : Instant) : String := dayText t.day ++ "T" ++ t.timeText ++ "Z"

/-- The text for a reader's eyes. -/
def display (t : Instant) : String := dayText t.day ++ " " ++ t.timeText ++ " UTC"

/-! ### Reading -/

/-- A reader of a part of an instant: what it read and the text that follows. -/
abbrev Part (α : Type) := StateT (List Char) Option α

namespace Part

/-- Blanks, any number of them. -/
def blanks : Part Unit := fun cs => some ((), cs.dropWhile Text.isBlank)

/-- A single character of a kind. -/
def one (p : Char → Bool) : Part Char
  | c :: cs => if p c then some (c, cs) else none
  | [] => none

/-- At least one digit and at most `most`, after blanks. -/
def digits (most : Nat) : Part Nat := do
  blanks
  let cs ← get
  let run := (cs.take most).takeWhile Char.isDigit
  guard !run.isEmpty
  set (cs.drop run.length)
  return Number.digitsValue run

/-- A year: four digits at most, or any number of them after a sign. -/
def year : Part Int := do
  blanks
  match ← get with
  | '-' :: cs => set cs; return -(← digitRun cs)
  | '+' :: cs => set cs; return ← digitRun cs
  | _ => return ← digits 4
where
  /-- A run of digits that starts at once. -/
  digitRun (cs : List Char) : Part Nat := do
    let run := cs.takeWhile Char.isDigit
    guard !run.isEmpty
    set (cs.drop run.length)
    return Number.digitsValue run

/-- A mark between two parts, blanks around it. -/
def mark (c : Char) : Part Unit := do
  blanks
  discard (one (· == c))

/-- The fraction of a second in nanoseconds; digits past the ninth are dropped. -/
def fraction : Part Nat := do
  match ← get with
  | '.' :: cs =>
    let run := (cs.takeWhile Char.isDigit).take 9
    guard !run.isEmpty
    set (cs.dropWhile Char.isDigit)
    return Number.digitsValue run * Nat.pow 10 (9 - run.length)
  | _ => return 0

/-- Two digits. -/
def twoDigits : Part Nat := do
  let a ← one Char.isDigit
  let b ← one Char.isDigit
  return Number.digitsValue [a, b]

/-- An offset from universal time in seconds. -/
def offset : Part Int := do
  match ← get with
  | u :: t :: c :: cs =>
    if (u == 'u' || u == 'U') && (t == 't' || t == 'T') && (c == 'c' || c == 'C') then
      set cs
      return 0
  | _ => pure ()
  match ← get with
  | 'Z' :: cs => set cs; return 0
  | 'z' :: cs => set cs; return 0
  | sign :: cs =>
    guard (sign == '+' || sign == '-' || sign == '\u2212')
    set cs
    let hours ← twoDigits
    modify fun cs => cs.dropWhile fun c => c == ':' || Text.isBlank c
    let minutes ← twoDigits
    guard (minutes < 60)
    let seconds := hours * 3600 + minutes * 60
    guard (seconds < 86400)
    return if sign == '+' then seconds else -(seconds : Int)
  | [] => failure

/-- An instant and the blanks after it. -/
def instant : Part Instant := do
  let year ← year
  mark '-'
  let month ← digits 2
  mark '-'
  let day ← digits 2
  let date : CalendarDay := ⟨year, month, day⟩
  guard (date.isValid && firstYear ≤ year && year ≤ lastYear)
  discard (one fun c => c == 'T' || c == 't' || c == ' ')
  let hour ← digits 2
  mark ':'
  let minute ← digits 2
  mark ':'
  let second ← digits 2
  guard (hour < 24 && minute < 60 && second ≤ 60)
  let nanos ← fraction
  blanks
  let shift ← offset
  blanks
  let leap := second / 60
  let time : Nat := hour * 3600 + minute * 60 + (second - leap)
  let seconds := date.toEpochDay * 86400 + time - shift
  let t : Instant := ⟨seconds, nanos + leap * 1000000000⟩
  guard (firstYear ≤ t.day.year && t.day.year ≤ lastYear)
  return t

end Part

/-- Reads the text of an instant. -/
def ofText? (text : String) : Option Instant :=
  match Part.instant text.toList with
  | some (t, []) => some t
  | _ => none

end Storyline.Instant
