import Brainfuck.Bytes

/-!
# Runes

A text is read rune by rune. A rune is a well-formed UTF-8 sequence or, where no such sequence
starts, a single byte.

## Main Definitions

* `Rune.width` — how many bytes the rune at the head of a text takes
* `Rune` — a rune with its code point, if it has one, and its bytes
* `runes` — the runes of a text

## Design Notes

`width` looks at most three bytes ahead and never takes an ASCII byte into a longer rune. The
recursion of `runes` is on the bytes themselves: `pending` counts the bytes that still belong to
the rune before.
-/

namespace Brainfuck

/-- One rune of a text. A byte that starts no well-formed sequence has no code point. -/
structure Rune where
  code : Option Nat
  bytes : Bytes
  deriving DecidableEq, Repr

namespace Rune

/-- Whether a byte can continue a sequence. -/
def isTail (b : UInt8) : Bool :=
  0x80 ≤ b && b ≤ 0xBF

/-- Whether `c` may follow the first byte `b` of a sequence. The bounds are narrower after the
first bytes that would otherwise admit an overlong form, a surrogate or too large a code point. -/
def isSecond (b c : UInt8) : Bool :=
  (if b = 0xE0 then (0xA0 : UInt8) else if b = 0xF0 then 0x90 else 0x80) ≤ c &&
    c ≤ (if b = 0xED then (0x9F : UInt8) else if b = 0xF4 then 0x8F else 0xBF)

/-- The number of bytes of the rune that starts with `b` and may take bytes of `rest`. -/
def width (b : UInt8) (rest : Bytes) : Nat :=
  if 0xC2 ≤ b && b ≤ 0xDF then
    match rest with
    | c :: _ => if isSecond b c then 2 else 1
    | _ => 1
  else if 0xE0 ≤ b && b ≤ 0xEF then
    match rest with
    | c :: d :: _ => if isSecond b c && isTail d then 3 else 1
    | _ => 1
  else if 0xF0 ≤ b && b ≤ 0xF4 then
    match rest with
    | c :: d :: e :: _ => if isSecond b c && isTail d && isTail e then 4 else 1
    | _ => 1
  else 1

/-- The code point of a well-formed sequence, given by its bytes. -/
def codeOf : Bytes → Option Nat
  | [b] => if b < 0x80 then some b.toNat else none
  | [b, c] => some ((b.toNat - 0xC0) * 0x40 + (c.toNat - 0x80))
  | [b, c, d] =>
    some (((b.toNat - 0xE0) * 0x40 + (c.toNat - 0x80)) * 0x40 + (d.toNat - 0x80))
  | [b, c, d, e] =>
    some ((((b.toNat - 0xF0) * 0x40 + (c.toNat - 0x80)) * 0x40 + (d.toNat - 0x80)) * 0x40 +
      (e.toNat - 0x80))
  | _ => none

/-- The rune at the head of a text. -/
def ofHead (b : UInt8) (rest : Bytes) : Rune :=
  let bytes := b :: rest.take (width b rest - 1)
  { code := codeOf bytes, bytes }

/-- The UTF-8 bytes of a code point. -/
def encode (code : Nat) : Bytes :=
  text (Char.ofNat code).toString

end Rune

/-- The runes of a text of which the first `pending` bytes belong to the rune before. -/
def runesFrom (pending : Nat) : Bytes → List Rune
  | [] => []
  | b :: rest =>
    match pending with
    | pending + 1 => runesFrom pending rest
    | 0 => Rune.ofHead b rest :: runesFrom (Rune.width b rest - 1) rest

/-- The runes of a text. Their bytes, in order, are the text. -/
def runes (t : Bytes) : List Rune :=
  runesFrom 0 t

/-- Whether a text is valid UTF-8. -/
def isUtf8 (t : Bytes) : Bool :=
  (runes t).all fun r => r.code.isSome

end Brainfuck
