/-!
# Timestamps

A moment as a clock on the wall shows it: a date and a time of day, together with the offset of
the clock from universal time.

## Main Definitions

* `Timestamp` — a date, a time of day and an offset
* `Timestamp.instant` — the moment itself, in nanoseconds
* `Timestamp.ofInstant` — the timestamp of a moment, in universal time

## Design Notes

Keeping the fields of the clock, and not the instant, makes writing and reading a timestamp inverse
to each other field by field. The instant is a function of the fields.
-/

namespace Brainfuck

/-- A date and a time of day at an offset from universal time. -/
structure Timestamp where
  year : Nat
  month : Nat
  day : Nat
  hour : Nat
  minute : Nat
  second : Nat
  nanosecond : Nat
  /-- The minutes by which the clock is ahead of universal time. -/
  offset : Int
  deriving DecidableEq, Repr

namespace Timestamp

/-- Whether a year has a leap day. -/
def isLeap (year : Nat) : Bool :=
  year % 4 == 0 && (year % 100 != 0 || year % 400 == 0)

/-- The number of days of a month. -/
def daysIn (month year : Nat) : Nat :=
  match month with
  | 2 => if isLeap year then 29 else 28
  | 4 | 6 | 9 | 11 => 30
  | _ => 31

/-- The number of days from the first day of year one to the first day of a year. -/
def daysBeforeYear (year : Nat) : Int :=
  let y : Int := (year : Int) - 1
  365 * y + y / 4 - y / 100 + y / 400

/-- The number of days of a year before a month. -/
def daysBeforeMonth (month year : Nat) : Nat :=
  ((List.range (month - 1)).map fun m => daysIn (m + 1) year).foldr Nat.add 0

/-- Nanoseconds since the start of year one, universal time. -/
def instant (t : Timestamp) : Int :=
  let days := daysBeforeYear t.year + daysBeforeMonth t.month t.year + t.day - 1
  let minutes := (days * 24 + t.hour) * 60 + t.minute - t.offset
  (minutes * 60 + t.second) * 1000000000 + t.nanosecond

/-- The start of year one, which stands for a moment that was not given. -/
def zero : Timestamp :=
  ⟨1, 1, 1, 0, 0, 0, 0, 0⟩

/-- Whether a timestamp is the moment that stands for none. -/
def isZero (t : Timestamp) : Bool :=
  t.instant == 0

/-- Splits a count of days of a year into the month and the day, both counted from one. -/
def monthOf (year : Nat) : Nat → Nat → Nat → Nat × Nat
  | 0, month, days => (month, days + 1)
  | fuel + 1, month, days =>
    if days < daysIn month year then (month, days + 1)
    else monthOf year fuel (month + 1) (days - daysIn month year)

/-- The timestamp in universal time of a moment that is not before year one. -/
def ofInstant (ns : Nat) : Timestamp :=
  let seconds := ns / 1000000000
  let days := seconds / 86400
  let ofDay := seconds % 86400
  let cycles := days / 146097
  let inCycle := days % 146097
  let centuries := min 3 (inCycle / 36524)
  let inCentury := inCycle - centuries * 36524
  let quads := inCentury / 1461
  let inQuad := inCentury % 1461
  let years := min 3 (inQuad / 365)
  let year := cycles * 400 + centuries * 100 + quads * 4 + years + 1
  let (month, day) := monthOf year 11 1 (inQuad - years * 365)
  { year, month, day, hour := ofDay / 3600, minute := ofDay / 60 % 60, second := ofDay % 60,
    nanosecond := ns % 1000000000, offset := 0 }

end Timestamp

end Brainfuck
