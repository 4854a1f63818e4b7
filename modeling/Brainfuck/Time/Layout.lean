import Brainfuck.Bytes
import Brainfuck.Time.Timestamp

/-!
# Layouts

A layout describes how a moment is written: literal text between the elements of a clock. Reading
by a layout goes from left to right and reports the first element that does not match.

## Main Definitions

* `ClockElement` — an element of a clock
* `Layout` — literal text and elements in order
* `Layout.read` — the timestamp that a text denotes
* `ClockError` — why a text denotes none

## Design Notes

An hour may have one digit, a fraction may follow a comma, and digits of a fraction after the
ninth are dropped. An offset may name up to 24 hours and 60 minutes. The day is checked against
the month after everything else.
-/

namespace Brainfuck

/-- An element of a clock. -/
inductive ClockElement where
  | year
  | month
  | day
  | hour
  | minute
  | second
  | fraction
  | zone
  deriving DecidableEq, Repr

/-- The text that stands for an element in a layout. -/
def ClockElement.pattern : ClockElement → Bytes
  | year => text "2006"
  | month => text "01"
  | day => text "02"
  | hour => text "15"
  | minute => text "04"
  | second => text "05"
  | fraction => text ".999999999"
  | zone => text "Z07:00"

/-- A layout: each element with the literal text before it. -/
abbrev Layout := List (Bytes × ClockElement)

/-- Why a text does not denote a moment. -/
inductive ClockError where
  /-- The text from `rest` does not match the element or the literal text `expected`. -/
  | mismatch (expected rest : Bytes)
  /-- The named element has an impossible value. -/
  | outOfRange (element : String)
  /-- Text is left over. -/
  | extraText (rest : Bytes)
  deriving DecidableEq, Repr

/-- A result of reading one element. -/
abbrev ElementResult := Except ClockError (Timestamp × Bytes)

/-- Reads a number of two digits or, unless `fixed`, of one. -/
def twoDigits? (fixed : Bool) : Bytes → Option (Nat × Bytes)
  | [] => none
  | a :: rest =>
    if !isDigit a then none
    else
      let single := if fixed then none else some (digitValue a, rest)
      match rest with
      | b :: rest =>
        if isDigit b then some (10 * digitValue a + digitValue b, rest) else single
      | [] => single

namespace ClockElement

/-- Reads a two-digit element and stores it if it is in range. -/
def readPair (e : ClockElement) (name : String) (fixed : Bool) (ok : Nat → Bool)
    (store : Nat → Timestamp) (value : Bytes) : ElementResult :=
  match twoDigits? fixed value with
  | none => .error (.mismatch e.pattern value)
  | some (n, rest) => if ok n then .ok (store n, rest) else .error (.outOfRange name)

/-- Reads a year of four digits. -/
def readYear (t : Timestamp) (value : Bytes) : ElementResult :=
  let digits := value.take 4
  if digits.length == 4 && digits.all isDigit then
    .ok ({ t with year := ofDecimal digits }, value.drop 4)
  else .error (.mismatch year.pattern value)

/-- Reads a fraction of a second, if there is one. -/
def readFraction (t : Timestamp) (value : Bytes) : Timestamp × Bytes :=
  match value with
  | point :: rest =>
    let digits := rest.takeWhile isDigit
    if (point == 0x2E || point == 0x2C) && !digits.isEmpty then
      let kept := digits.take 9
      ({ t with nanosecond := ofDecimal kept * Nat.pow 10 (9 - kept.length) },
        rest.drop digits.length)
    else (t, value)
  | [] => (t, value)

/-- Reads an offset from universal time. -/
def readZone (t : Timestamp) (value : Bytes) : ElementResult :=
  match value with
  | 0x5A :: rest => .ok ({ t with offset := 0 }, rest)
  | sign :: h₁ :: h₂ :: colon :: m₁ :: m₂ :: rest =>
    if colon != 0x3A then .error (.mismatch zone.pattern value)
    else
      let hours := (twoDigits? true [h₁, h₂]).map (·.1)
      let minutes := hours.bind fun _ => (twoDigits? true [m₁, m₂]).map (·.1)
      -- of two numbers out of range, the minutes are the ones named
      if minutes.any (60 < ·) then .error (.outOfRange "time zone offset minute")
      else if hours.any (24 < ·) then .error (.outOfRange "time zone offset hour")
      else match hours, minutes with
        | some h, some m =>
          let size : Int := h * 60 + m
          if sign == 0x2B then .ok ({ t with offset := size }, rest)
          else if sign == 0x2D then .ok ({ t with offset := -size }, rest)
          else .error (.mismatch zone.pattern value)
        | _, _ => .error (.mismatch zone.pattern value)
  | _ => .error (.mismatch zone.pattern value)

/-- Reads one element into a timestamp. -/
def read (e : ClockElement) (t : Timestamp) (value : Bytes) : ElementResult :=
  match e with
  | year => readYear t value
  | month => e.readPair "month" true (fun n => 1 ≤ n && n ≤ 12) ({ t with month := · }) value
  | day => e.readPair "day" true (fun _ => true) ({ t with day := · }) value
  | hour => e.readPair "hour" false (· < 24) ({ t with hour := · }) value
  | minute => e.readPair "minute" true (· < 60) ({ t with minute := · }) value
  | second => e.readPair "second" true (· < 60) ({ t with second := · }) value
  | fraction => .ok (readFraction t value)
  | zone => readZone t value

end ClockElement

namespace Layout

/-- A layout as text. -/
def toText (layout : Layout) : Bytes :=
  layout.flatMap fun (before, e) => before ++ e.pattern

/-- Drops a literal text, or gives the rest where it fails to match. -/
def dropLiteral : Bytes → Bytes → Except Bytes Bytes
  | [], value => .ok value
  | _ :: _, [] => .error []
  | l :: before, b :: value => if l = b then dropLiteral before value else .error (b :: value)

/-- Reads the elements of a layout in order. -/
def readElements : Layout → Timestamp → Bytes → ElementResult
  | [], t, value => .ok (t, value)
  | (before, e) :: layout, t, value =>
    match dropLiteral before value with
    | .error rest => .error (.mismatch before rest)
    | .ok value =>
      match e.read t value with
      | .error err => .error err
      | .ok (t, value) => readElements layout t value

/-- The fields that a layout leaves out. -/
def unread : Timestamp :=
  ⟨0, 1, 1, 0, 0, 0, 0, 0⟩

/-- The timestamp that a text denotes by a layout. -/
def read (layout : Layout) (value : Bytes) : Except ClockError Timestamp :=
  match readElements layout unread value with
  | .error err => .error err
  | .ok (t, rest) =>
    if !rest.isEmpty then .error (.extraText rest)
    else if t.day < 1 || Timestamp.daysIn t.month t.year < t.day then .error (.outOfRange "day")
    else .ok t

end Layout

end Brainfuck
