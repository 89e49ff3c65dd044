/-!
Time. Spans are whole seconds and nanoseconds below a second. Instants of universal time are seconds
since the start of 1970 in the proleptic Gregorian calendar, every day having 86400 of them, and
nanoseconds. A leap second is written as the second before it with a thousand million nanoseconds or
more.
-/

namespace Storyline

/-- A span of time. -/
structure Span where
  seconds : Nat
  nanos : Nat
  nanos_lt : nanos < 1000000000
deriving DecidableEq, Repr

namespace Span

/-- No time at all. -/
def zero : Span := ⟨0, 0, Nat.zero_lt_succ _⟩

instance : Inhabited Span := ⟨zero⟩

/-- The span of some seconds and any number of nanoseconds, full seconds among them carried. -/
def of (seconds nanos : Nat) : Span where
  seconds := seconds + nanos / 1000000000
  nanos := nanos % 1000000000
  nanos_lt := Nat.mod_lt _ (by decide)

def ofMillis (ms : Nat) : Span := of (ms / 1000) (ms % 1000 * 1000000)

/-- The whole milliseconds of a span. -/
def millis (d : Span) : Nat := d.seconds * 1000 + d.nanos / 1000000

end Span

/-- An instant of universal time. -/
structure Instant where
  seconds : Int
  nanos : Nat
deriving DecidableEq, Repr, Inhabited

/-- A day of the proleptic Gregorian calendar. -/
structure CalendarDay where
  year : Int
  month : Nat
  day : Nat
deriving DecidableEq, Repr

namespace CalendarDay

/-- Every fourth year is a leap year, every hundredth is not, every four hundredth is. -/
def isLeap (year : Int) : Bool :=
  year % 4 == 0 && (year % 100 != 0 || year % 400 == 0)

/-- The number of days of a month. -/
def monthLength (year : Int) (month : Nat) : Nat :=
  match month with
  | 2 => if isLeap year then 29 else 28
  | 4 | 6 | 9 | 11 => 30
  | _ => 31

/-- The months run from 1 to 12 and the days from 1 to the month's length. -/
def isValid (d : CalendarDay) : Bool :=
  1 ≤ d.month && d.month ≤ 12 && 1 ≤ d.day && d.day ≤ monthLength d.year d.month

/-- Days since the first of January 1970. Years are counted from March, so that the leap day is
the last of its year, and in eras of 400 years, which all have 146097 days. -/
def toEpochDay (d : CalendarDay) : Int :=
  let year := if d.month ≤ 2 then d.year - 1 else d.year
  let month := if d.month ≤ 2 then d.month + 9 else d.month - 3
  let era := Int.fdiv year 400
  let yearOfEra := Int.fmod year 400
  let dayOfYear : Int := ((153 * month + 2) / 5 : Nat) + d.day - 1
  era * 146097 + yearOfEra * 365 + yearOfEra / 4 - yearOfEra / 100 + dayOfYear - 719468

/-- The day that many days after the first of January 1970. -/
def ofEpochDay (n : Int) : CalendarDay :=
  let z := n + 719468
  let era := Int.fdiv z 146097
  let dayOfEra := Int.fmod z 146097
  let yearOfEra := (dayOfEra - dayOfEra / 1460 + dayOfEra / 36524 - dayOfEra / 146096) / 365
  let dayOfYear := (dayOfEra - (365 * yearOfEra + yearOfEra / 4 - yearOfEra / 100)).toNat
  let m := (5 * dayOfYear + 2) / 153
  let month := if m < 10 then m + 3 else m - 9
  let year := yearOfEra + era * 400
  { year := if month ≤ 2 then year + 1 else year
    month := month
    day := dayOfYear - (153 * m + 2) / 5 + 1 }

end CalendarDay

namespace Instant

/-- The first and the last year that an instant may lie in. -/
def firstYear : Int := -262143
def lastYear : Int := 262142

/-- The day of an instant. -/
def day (t : Instant) : CalendarDay := .ofEpochDay (Int.fdiv t.seconds 86400)

/-- The second of its day that an instant lies in, leap seconds aside. -/
def secondOfDay (t : Instant) : Nat := (Int.fmod t.seconds 86400).toNat

/-- The earlier instant. -/
def before (a b : Instant) : Bool :=
  a.seconds < b.seconds || (a.seconds == b.seconds && a.nanos < b.nanos)

/-- Milliseconds since the start of 1970. -/
def millis (t : Instant) : Int := t.seconds * 1000 + (t.nanos / 1000000 : Nat)

end Instant

end Storyline
