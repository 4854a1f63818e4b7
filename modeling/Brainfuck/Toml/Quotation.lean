import Brainfuck.Text.Numeral
import Brainfuck.Text.Rune
import Brainfuck.Toml.Literal

/-!
# Quotations

Strings of a TOML document. A string is delimited first; then its escapes are replaced.

## Main Definitions

* `quotation?` — the string at the head of a text, and the text after it
* `unescape` — the text that a basic string denotes
-/

namespace Brainfuck.Toml

/-- Whether a byte is a space or a tab. -/
def isSpace (b : UInt8) : Bool :=
  b == 0x20 || b == 0x09

/-- Whether a byte belongs to a line end. -/
def isLineEnd (b : UInt8) : Bool :=
  b == 0x0A || b == 0x0D

/-- The text of a code point given by hexadecimal digits. -/
def codeText? (digits : Bytes) : Option Bytes := do
  let values ← digits.mapM (Numeral.digit? 16)
  let code := values.foldl (fun n d => 16 * n + d) 0
  if code < 0xD800 || (0xE000 ≤ code && code < 0x110000) then some (Rune.encode code) else none

/-- The byte that a one-letter escape stands for. -/
def escapedByte? (b : UInt8) : Option UInt8 :=
  [(octet 'b', 0x08), (octet 't', 0x09), (octet 'n', 0x0A), (octet 'f', 0x0C),
    (octet 'r', 0x0D), (octet 'e', 0x1B), (basicQuote, basicQuote),
    (escapeMark, escapeMark)].lookup b

/-- Replaces the escapes of a basic string. A backslash at the end of a line stands for nothing,
and so do the blanks and line ends after it, which `skipping` drops. -/
def unescape (skipping : Bool) : Bytes → Option Bytes
  | [] => some []
  | b :: rest =>
    let isBlank b := isSpace b || isLineEnd b
    if skipping && isBlank b then unescape true rest
    else if b != escapeMark then (unescape false rest).map (b :: ·)
    else match rest with
      | [] => none
      | c :: rest =>
        if isBlank c then
          if ((c :: rest).takeWhile isBlank).contains 0x0A then unescape true rest else none
        else if c = octet 'x' then
          match rest with
          | h₁ :: h₂ :: rest => do some ((← codeText? [h₁, h₂]) ++ (← unescape false rest))
          | _ => none
        else if c = octet 'u' then
          match rest with
          | h₁ :: h₂ :: h₃ :: h₄ :: rest => do
            some ((← codeText? [h₁, h₂, h₃, h₄]) ++ (← unescape false rest))
          | _ => none
        else if c = octet 'U' then
          match rest with
          | h₁ :: h₂ :: h₃ :: h₄ :: h₅ :: h₆ :: h₇ :: h₈ :: rest => do
            some ((← codeText? [h₁, h₂, h₃, h₄, h₅, h₆, h₇, h₈]) ++ (← unescape false rest))
          | _ => none
        else do some ((← escapedByte? c) :: (← unescape false rest))

/-- The content of a string up to its closing quote, and the text after that. `escaped` says
whether the byte before starts an escape. -/
def delimited? (quote : UInt8) (escaped : Bool) : Bytes → Option (Bytes × Bytes)
  | [] => none
  | b :: rest =>
    if isLineEnd b then none
    else if b = quote && !escaped then some ([], rest)
    else
      let opens := quote == basicQuote && b == escapeMark && !escaped
      (delimited? quote opens rest).map fun (content, rest) => (b :: content, rest)

/-- The content of a string of several lines that ends in a run of quotes. The last three close
the string and at most two more belong to it, or three after an escaped backslash. `done` is the
text so far, last byte first. -/
def closeRun? (quote : UInt8) (run : Nat) (done : Bytes) : Option Bytes :=
  let afterMark := quote == basicQuote && (done.drop run).head? == some escapeMark
  if 3 ≤ run && run ≤ (if afterMark then 6 else 5) then some (done.drop 3).reverse else none

/-- The content of a string of several lines, and the text after it. -/
def delimitedLines? (quote : UInt8) (run : Nat) (escaped : Bool) (done : Bytes) :
    Bytes → Option (Bytes × Bytes)
  | [] => (closeRun? quote run done).map (·, [])
  | b :: rest =>
    if b = quote && !escaped then delimitedLines? quote (run + 1) false (b :: done) rest
    else if 3 ≤ run then (closeRun? quote run done).map (·, b :: rest)
    else
      let opens := quote == basicQuote && b == escapeMark && !escaped
      delimitedLines? quote 0 opens (b :: done) rest

/-- A text without the line end at its head. -/
def dropFirstLineEnd : Bytes → Bytes
  | [] => []
  | b :: rest => if b = 0x0A then rest else b :: rest

/-- What the content of a string between given quotes denotes. -/
def meaning? (quote : UInt8) (content : Bytes) : Option Bytes :=
  if quote = basicQuote then unescape false content else some content

/-- The string of one line after its opening quote, and the text after it. -/
def line? (quote : UInt8) (t : Bytes) : Option (Bytes × Bytes) := do
  let (content, rest) ← delimited? quote false t
  some (← meaning? quote content, rest)

/-- The string of several lines after its opening quotes, and the text after it. -/
def lines? (quote : UInt8) (t : Bytes) : Option (Bytes × Bytes) := do
  let (content, rest) ← delimitedLines? quote 0 false [] t
  some (← meaning? quote (dropFirstLineEnd content), rest)

/-- The string after its first quote, and the text after it. Three quotes open a string of several
lines. -/
def quotation? (quote : UInt8) (t : Bytes) : Option (Bytes × Bytes) :=
  match t with
  | a :: b :: rest =>
    if a = quote && b = quote then lines? quote rest else line? quote t
  | _ => line? quote t

end Brainfuck.Toml
