import Brainfuck.Bytes

/-!
# Numerals

Integers and truth values as a user writes them.

## Main Definitions

* `Numeral.ofSigned?`, `Numeral.ofDecimal?` — a signed decimal integer, of any size or of 64 bits
* `Numeral.ofLiteral` — an integer with an optional base prefix and underscores
* `Numeral.ofTruth?` — a truth value
-/

namespace Brainfuck.Numeral

/-- The least integer of 64 bits. -/
def minWord : Int :=
  -(Int.pow 2 63)

/-- The greatest integer of 64 bits. -/
def maxWord : Int :=
  Int.pow 2 63 - 1

/-- Whether an integer has 64 bits. -/
def isWord (i : Int) : Bool :=
  minWord ≤ i && i ≤ maxWord

/-- Splits a text into its sign and the rest. -/
def splitSign : Bytes → Bool × Bytes
  | 0x2B :: rest => (false, rest)
  | 0x2D :: rest => (true, rest)
  | t => (false, t)

/-- The integer with a sign and a magnitude. -/
def withSign (negative : Bool) (n : Nat) : Int :=
  if negative then -n else n

/-- A decimal integer: an optional sign and digits, nothing else. -/
def ofSigned? (t : Bytes) : Option Int :=
  let (negative, digits) := splitSign t
  if digits.isEmpty || !digits.all isDigit then none
  else some (withSign negative (Brainfuck.ofDecimal digits))

/-- A decimal integer of 64 bits. -/
def ofDecimal? (t : Bytes) : Option Int :=
  (ofSigned? t).filter isWord

/-- The value of a digit in a base up to sixteen. -/
def digit? (base : Nat) (b : UInt8) : Option Nat :=
  let value :=
    if isDigit b then some (digitValue b)
    else if 0x61 ≤ b && b ≤ 0x66 then some (b.toNat - 0x61 + 10)
    else if 0x41 ≤ b && b ≤ 0x46 then some (b.toNat - 0x41 + 10)
    else none
  value.filter (· < base)

/-- Why a literal is no integer of 64 bits. -/
inductive LiteralError where
  | malformed
  | outOfRange
  deriving DecidableEq, Repr

/-- Reads digits, skipping underscores, up to the first byte that is no digit or the first digit
that makes the number exceed 64 bits. -/
def readDigits (base n : Nat) : Bytes → Except LiteralError Nat
  | [] => .ok n
  | b :: rest =>
    if b = 0x5F then readDigits base n rest
    else match digit? base b with
      | none => .error .malformed
      | some d =>
        if base * n + d < 2 ^ 64 then readDigits base (base * n + d) rest
        else .error .outOfRange

/-- Splits an unsigned literal into its base, whether a prefix names it, and its digits. The
prefixes are `0x`, `0o` and `0b` in either case; another leading zero means base eight. -/
def splitBase : Bytes → Nat × Bool × Bytes
  | 0x30 :: p :: d :: rest =>
    if p = 0x78 || p = 0x58 then (16, true, d :: rest)
    else if p = 0x6F || p = 0x4F then (8, true, d :: rest)
    else if p = 0x62 || p = 0x42 then (2, true, d :: rest)
    else (8, false, 0x30 :: p :: d :: rest)
  | 0x30 :: rest => (8, false, 0x30 :: rest)
  | t => (10, false, t)

/-- Whether every underscore stands between digits, where a base prefix counts as a digit: `ready`
says whether an underscore may come next. -/
def underscoresOk (ready : Bool) : Bytes → Bool
  | [] => true
  | 0x5F :: rest => ready && !rest.isEmpty && underscoresOk false rest
  | _ :: rest => underscoresOk true rest

/-- An integer literal: an optional sign, an optional base prefix, and digits that underscores
may separate. -/
def ofLiteral (t : Bytes) : Except LiteralError Int := do
  let (negative, unsigned) := splitSign t
  if unsigned.isEmpty then .error .malformed
  let (base, named, digits) := splitBase unsigned
  let n ← readDigits base 0 digits
  if !underscoresOk named digits then .error .malformed
  let i := withSign negative n
  if isWord i then .ok i else .error .outOfRange

/-- The spellings of a truth value. -/
def ofTruth? (t : Bytes) : Option Bool :=
  if ["1", "t", "T", "TRUE", "true", "True"].any (text · == t) then some true
  else if ["0", "f", "F", "FALSE", "false", "False"].any (text · == t) then some false
  else none

end Brainfuck.Numeral
