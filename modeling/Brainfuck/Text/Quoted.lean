import Brainfuck.Text.Printable
import Brainfuck.Text.Rune

/-!
# Quoted text

How messages quote a text that they did not choose.

## Main Definitions

* `quoted` — a text in double quotes, with escapes for all that is not printable
* `quotedAscii` — a text in double quotes, with every byte outside ASCII escaped
-/

namespace Brainfuck

/-- An escaped byte: a backslash, an `x` and two hexadecimal digits. -/
def escapedByte (b : UInt8) : Bytes :=
  text "\\x" ++ hexadecimal 2 b.toNat

/-- A code point inside quotes. The usual control characters have names of one letter; others
below U+0080 have two hexadecimal digits, then come four and eight. -/
def quotedCode (code : Nat) (bytes : Bytes) : Bytes :=
  match code with
  | 0x22 => text "\\\""
  | 0x5C => text "\\\\"
  | 0x07 => text "\\a"
  | 0x08 => text "\\b"
  | 0x0C => text "\\f"
  | 0x0A => text "\\n"
  | 0x0D => text "\\r"
  | 0x09 => text "\\t"
  | 0x0B => text "\\v"
  | code =>
    if isPrintable code then bytes
    else if code < 0x20 || code == 0x7F then text "\\x" ++ hexadecimal 2 code
    else if code < 0x10000 then text "\\u" ++ hexadecimal 4 code
    else text "\\U" ++ hexadecimal 8 code

/-- A rune inside quotes. -/
def quotedRune (r : Rune) : Bytes :=
  match r.code with
  | some code => quotedCode code r.bytes
  | none => r.bytes.flatMap escapedByte

/-- A text in double quotes. Printable code points stand for themselves, all else is escaped. -/
def quoted (t : Bytes) : Bytes :=
  0x22 :: (runes t).flatMap quotedRune ++ [0x22]

/-- A byte inside quotes that admit ASCII only. -/
def quotedAsciiByte (b : UInt8) : Bytes :=
  if b < 0x20 || 0x80 ≤ b then escapedByte b
  else if b = 0x22 || b = 0x5C then [0x5C, b]
  else [b]

/-- A text in double quotes, where bytes below the space and outside ASCII are escaped. -/
def quotedAscii (t : Bytes) : Bytes :=
  0x22 :: t.flatMap quotedAsciiByte ++ [0x22]

end Brainfuck
