import Brainfuck.Bytes

/-!
# Quantities

Counts and sizes as a report shows them.

## Main Definitions

* `grouped` — an integer with commas between groups of three digits
* `byteSize` — a number of bytes with a unit
-/

namespace Brainfuck

/-- Digits, last first, with a comma after every third one but the last. -/
def groupDigits : Bytes → Bytes
  | a :: b :: c :: d :: rest => a :: b :: c :: 0x2C :: groupDigits (d :: rest)
  | digits => digits

/-- An integer with commas between groups of three digits. -/
def grouped (i : Int) : Bytes :=
  (if i < 0 then [0x2D] else []) ++ (groupDigits (decimal i.natAbs).reverse).reverse

/-- The units of a size, each a thousand times the one before. -/
def sizeUnits : List String :=
  ["B", "kB", "MB", "GB", "TB", "PB", "EB"]

/-- The nearest integer to `tenths / 10`; of two nearest ones the even one. -/
def roundTenths (tenths : Nat) : Nat :=
  let whole := tenths / 10
  let rest := tenths % 10
  if rest < 5 then whole
  else if 5 < rest then whole + 1
  else if whole % 2 == 0 then whole
  else whole + 1

/-- A number of bytes in the largest unit that it reaches, in floating point: one decimal place
below ten, none from there on. -/
def byteSize (n : UInt64) : Bytes :=
  if n < 10 then decimal n.toNat ++ text " B"
  else
    let size := n.toFloat
    let power := (size.log / (1000 : Float).log).floor.toUInt64.toNat
    let tenths := (size / Float.ofNat (Nat.pow 1000 power) * 10 + 0.5).floor.toUInt64.toNat
    let number :=
      if tenths < 100 then decimal (tenths / 10) ++ text "." ++ decimal (tenths % 10)
      else decimal (roundTenths tenths)
    number ++ text " " ++ text (sizeUnits.getD power "EB")

end Brainfuck
