import Brainfuck.Bytes

/-!
# Literals

The values, keys and statements of a TOML document as they are written.

## Main Definitions

* `Key` — a dotted key
* `Key.toText` — a key as text, with quotes where they are needed
* `Literal` — a written value
* `Statement` — a table header or an entry
-/

namespace Brainfuck.Toml

/-- The byte of an ASCII character. -/
def octet (c : Char) : UInt8 :=
  c.toNat.toUInt8

/-- The quote of a basic string, in which a backslash escapes. -/
def basicQuote : UInt8 :=
  0x22

/-- The quote of a literal string, which stands for itself. -/
def literalQuote : UInt8 :=
  0x27

/-- The byte that starts an escape. -/
def escapeMark : UInt8 :=
  0x5C

/-- A dotted key: its parts in order. -/
abbrev Key := List Bytes

/-- Whether a byte may stand in a key without quotes. -/
def isBare (b : UInt8) : Bool :=
  isDigit b || (octet 'A' ≤ b && b ≤ octet 'Z') || (octet 'a' ≤ b && b ≤ octet 'z') ||
    b == octet '_' || b == octet '-'

/-- A byte of a quoted key as text. -/
def escapeKeyByte (b : UInt8) : Bytes :=
  if b = basicQuote || b = escapeMark then [escapeMark, b]
  else if b = 0x08 then text "\\b"
  else if b = 0x09 then text "\\t"
  else if b = 0x0A then text "\\n"
  else if b = 0x0C then text "\\f"
  else if b = 0x0D then text "\\r"
  else if b < 0x20 || b = 0x7F then text "\\u" ++ hexadecimal 4 b.toNat
  else [b]

/-- A part of a key as text: bare if possible, and otherwise quoted. -/
def Key.partText (part : Bytes) : Bytes :=
  if !part.isEmpty && part.all isBare then part
  else basicQuote :: part.flatMap escapeKeyByte ++ [basicQuote]

/-- A key as text. -/
def Key.toText (k : Key) : Bytes :=
  (text ".").intercalate (k.map partText)

/-- A value as written in a document. -/
inductive Literal where
  | text (value : Bytes)
  | integer (value : Int)
  | truth (value : Bool)
  | float (spelling : Bytes)
  | moment (spelling : Bytes)
  | array (items : List Literal)
  | inline (pairs : List (Key × Literal))

/-- A statement of a document. -/
inductive Statement where
  /-- The header of a table. -/
  | table (key : Key)
  /-- The header of another element of an array of tables. -/
  | element (key : Key)
  | entry (key : Key) (value : Literal)

end Brainfuck.Toml
