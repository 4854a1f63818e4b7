import Brainfuck.Text.Rune

/-!
# White space

The white space that separates words, by the Unicode property.

## Main Definitions

* `Rune.isBlank` — whether a rune is white space
* `fields` — the words of a text
* `isBlankText` — whether a text holds nothing but white space
-/

namespace Brainfuck

/-- Whether a code point has the property White_Space. -/
def isBlankCode (c : Nat) : Bool :=
  (0x09 ≤ c && c ≤ 0x0D) || c == 0x20 || c == 0x85 || c == 0xA0 || c == 0x1680 ||
    (0x2000 ≤ c && c ≤ 0x200A) || c == 0x2028 || c == 0x2029 || c == 0x202F || c == 0x205F ||
    c == 0x3000

/-- Whether a rune is white space. A byte without a code point is not. -/
def Rune.isBlank (r : Rune) : Bool :=
  r.code.any isBlankCode

/-- Puts a word, unless it is empty, before the words that follow it. -/
def consWord (word : Bytes) (words : List Bytes) : List Bytes :=
  if word.isEmpty then words else word :: words

/-- The words of a text: its longest stretches without white space. -/
def fields (t : Bytes) : List Bytes :=
  let (word, words) := (runes t).foldr
    (fun r (word, words) =>
      if r.isBlank then ([], consWord word words) else (r.bytes ++ word, words))
    (([], []) : Bytes × List Bytes)
  consWord word words

/-- Whether a text holds nothing but white space. -/
def isBlankText (t : Bytes) : Bool :=
  (runes t).all Rune.isBlank

end Brainfuck
