import Brainfuck.Bytes

/-!
# Durations

Lengths of time in nanoseconds, and their text.

## Main Definitions

* `fractionText` — the digits after a decimal point, without trailing zeros
* `durationText` — a length of time in hours, minutes and seconds, or in a smaller unit
-/

namespace Brainfuck

/-- A decimal point and the fraction `n / 10 ^ digits` without trailing zeros; nothing for zero. -/
def fractionText (digits n : Nat) : Bytes :=
  if n = 0 then []
  else
    let all := paddedDecimal digits n
    0x2E :: (all.reverse.dropWhile (· == 0x30)).reverse

/-- The quotient `n / 10 ^ digits` as a decimal number. -/
def fixedPoint (digits n : Nat) : Bytes :=
  decimal (n / Nat.pow 10 digits) ++ fractionText digits (n % Nat.pow 10 digits)

/-- The text of a length of time below one second. -/
def shortDurationText (ns : Nat) : Bytes :=
  if ns = 0 then text "0s"
  else if ns < 1000 then decimal ns ++ text "ns"
  else if ns < 1000000 then fixedPoint 3 ns ++ text "µs"
  else fixedPoint 6 ns ++ text "ms"

/-- The text of a length of time of one second or more. -/
def longDurationText (ns : Nat) : Bytes :=
  let seconds := ns / 1000000000
  let minutes := seconds / 60
  let hours := minutes / 60
  (if hours = 0 then [] else decimal hours ++ text "h") ++
    (if minutes = 0 then [] else decimal (minutes % 60) ++ text "m") ++
    fixedPoint 9 (ns % 60000000000) ++ text "s"

/-- The text of a length of time in nanoseconds. -/
def durationText (ns : Int) : Bytes :=
  let size := ns.natAbs
  (if ns < 0 then [0x2D] else []) ++
    if size < 1000000000 then shortDurationText size else longDurationText size

end Brainfuck
