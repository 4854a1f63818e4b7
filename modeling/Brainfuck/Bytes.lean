/-!
# Bytes

Text is handled as bytes throughout: sources, names and messages may hold any bytes, whether or
not they form valid UTF-8.

## Main Definitions

* `Bytes` — a text
* `text` — the bytes of a literal
* `decimal`, `signed` — integers in decimal notation
* `padLeft`, `padRight` — texts filled up to a width
* `pieces` — the parts of a text between separators
-/

namespace Brainfuck

/-- A text: any sequence of bytes. -/
abbrev Bytes := List UInt8

/-- The UTF-8 bytes of a string. -/
def text (s : String) : Bytes :=
  s.toUTF8.data.toList

/-- A natural number in decimal notation. -/
def decimal (n : Nat) : Bytes :=
  (Nat.toDigits 10 n).map Char.toUInt8

/-- An integer in decimal notation, with a minus sign if it is negative. -/
def signed : Int → Bytes
  | .ofNat n => decimal n
  | .negSucc n => 0x2D :: decimal (n + 1)

/-- The lower-case hexadecimal digit of a number below sixteen. -/
def hexDigit (n : Nat) : UInt8 :=
  (Nat.digitChar n).toUInt8

/-- A number in lower-case hexadecimal notation with `width` digits. -/
def hexadecimal : Nat → Nat → Bytes
  | 0, _ => []
  | width + 1, n => hexadecimal width (n / 16) ++ [hexDigit (n % 16)]

/-- Fills a text on the left up to `width` bytes. -/
def padLeft (width : Nat) (fill : UInt8) (t : Bytes) : Bytes :=
  List.replicate (width - t.length) fill ++ t

/-- Fills a text with spaces on the right up to `width` bytes. -/
def padRight (width : Nat) (t : Bytes) : Bytes :=
  t ++ List.replicate (width - t.length) 0x20

/-- A natural number with at least `width` digits. -/
def paddedDecimal (width n : Nat) : Bytes :=
  padLeft width 0x30 (decimal n)

/-- Whether a byte is an ASCII digit. -/
def isDigit (b : UInt8) : Bool :=
  0x30 ≤ b && b ≤ 0x39

/-- The value of an ASCII digit. -/
def digitValue (b : UInt8) : Nat :=
  b.toNat - 0x30

/-- The number that a sequence of ASCII digits denotes. -/
def ofDecimal (t : Bytes) : Nat :=
  t.foldl (fun n b => 10 * n + digitValue b) 0

/-- The texts between the occurrences of a byte. -/
def pieces (separator : UInt8) (t : Bytes) : List Bytes :=
  t.foldr
    (fun b ps =>
      if b = separator then [] :: ps
      else match ps with
        | [] => [[b]]
        | p :: ps => (b :: p) :: ps)
    [[]]

/-- Texts in increasing byte order. -/
def sortTexts (ts : List Bytes) : List Bytes :=
  ts.mergeSort fun a b => decide (a ≤ b)

/-- Whether a text is one of some texts. -/
instance decidableMemTexts (t : Bytes) (ts : List Bytes) : Decidable (t ∈ ts) :=
  inferInstance

/-- A key that is not among some keys can be added to them. -/
theorem nodup_append_key {keys : List Bytes} {key : Bytes} (h : keys.Nodup) (hkey : key ∉ keys) :
    (keys ++ [key]).Nodup := by
  refine List.nodup_append.mpr ⟨h, by simp, ?_⟩
  intro k hk k' hk'
  rw [List.mem_singleton.mp hk']
  rintro rfl
  exact hkey hk

end Brainfuck
