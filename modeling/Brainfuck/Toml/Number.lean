import Brainfuck.Text.Numeral
import Brainfuck.Time.Layout
import Brainfuck.Toml.Literal

/-!
# Numbers and moments

Which spellings denote an integer, a float or a moment in a TOML document.

## Main Definitions

* `integer?` — the integer of 64 bits that a spelling denotes
* `isFloat` — whether a spelling denotes a float
* `isMoment` — whether a spelling denotes a date, a time of day or both

## Design Notes

Floats and moments are checked and kept as they are spelled: nothing computes with them.
-/

namespace Brainfuck.Toml

/-- Whether underscores stand between digits only, and a digit comes last. `ready` says whether an
underscore may come next. -/
def isSeparated (ready : Bool) : Bytes → Bool
  | [] => ready
  | b :: rest =>
    if b = octet '_' then ready && isSeparated false rest
    else isSeparated (Numeral.digit? 16 b).isSome rest

/-- Whether a decimal spelling has a zero before other digits. -/
def hasLeadingZero (t : Bytes) : Bool :=
  match (Numeral.splitSign t).2 with
  | z :: _ :: _ => z == octet '0'
  | _ => false

/-- The integer of a decimal spelling with an optional sign. -/
def decimalInteger? (t : Bytes) : Option Int :=
  if isSeparated false t && !hasLeadingZero t then (Numeral.ofLiteral t).toOption else none

/-- The integer of a spelling with a base of its own. -/
def basedInteger? (t : Bytes) : Option Int :=
  if isSeparated false t then (Numeral.ofLiteral t).toOption else none

/-- Splits a text after its leading digits, without the underscores between them. There has to be
a digit. -/
def digitGroup? (t : Bytes) : Option (Bytes × Bytes) :=
  let part := t.takeWhile fun b => isDigit b || b == octet '_'
  if isSeparated false part then some (part.filter isDigit, t.drop part.length) else none

/-- Splits a text after the digits that follow one of the given marks, if it starts with one. -/
def markedGroup? (marks : List UInt8) (signed : Bool) (t : Bytes) :
    Option (Bool × Bytes × Bytes) :=
  match t with
  | [] => some (false, [], [])
  | b :: rest =>
    if marks.contains b then do
      let (negative, rest) := if signed then Numeral.splitSign rest else (false, rest)
      let (digits, rest) ← digitGroup? rest
      some (negative, digits, rest)
    else some (false, [], t)

/-- The least number that no float of 64 bits comes near: halfway between the greatest of them and
the next power of two. -/
def floatBound : Nat :=
  Nat.pow 2 1024 - Nat.pow 2 970

/-- Whether `m` times the power `e` of ten is too large for a float of 64 bits. -/
def floatOverflows (m : Nat) (e : Int) : Bool :=
  let size := (decimal m).length + e
  if m = 0 || size < 0 then false
  else if 400 < size then true
  else floatBound * Nat.pow 10 (-e).toNat ≤ m * Nat.pow 10 e.toNat

/-- Whether a spelling denotes a float: digits, and then a fraction or an exponent or both. -/
def isFloat (t : Bytes) : Bool :=
  let result := do
    let (_, unsigned) := Numeral.splitSign t
    let (whole, rest) ← digitGroup? unsigned
    if hasLeadingZero (unsigned.take (unsigned.length - rest.length)) then none
    let (_, fraction, rest) ← markedGroup? [octet '.'] false rest
    let (negative, exponent, rest) ← markedGroup? [octet 'e', octet 'E'] true rest
    if !rest.isEmpty then none
    let e := Numeral.withSign negative (ofDecimal exponent)
    if floatOverflows (ofDecimal (whole ++ fraction)) (e - fraction.length) then none
    some ()
  result.isSome

/-- The elements of a date. -/
def dateLayout : Layout :=
  [([], .year), (text "-", .month), (text "-", .day)]

/-- The elements of a time of day, the first after a given text. -/
def timeLayout (before : Bytes) (seconds : Bool) : Layout :=
  [(before, .hour), (text ":", .minute)] ++
    if seconds then [(text ":", .second), ([], .fraction)] else []

/-- The layouts of a moment. -/
def momentLayouts : List Layout :=
  let zone : Layout := [([], .zone)]
  [dateLayout ++ timeLayout (text "T") true ++ zone, dateLayout ++ timeLayout (text "T") true,
    dateLayout, timeLayout [] true, dateLayout ++ timeLayout (text "T") false ++ zone,
    dateLayout ++ timeLayout (text "T") false, timeLayout [] false]

/-- A spelling of a moment in capitals, with a `T` between date and time. -/
def canonicalMoment (t : Bytes) : Bytes :=
  t.map fun b =>
    if b = octet 'z' then octet 'Z' else if b = octet 't' || b = octet ' ' then octet 'T' else b

/-- Whether the separators of a text stand where a layout has them, up to the fraction and the
offset. They do not if the hour has one digit. -/
def isAligned : Bytes → Bytes → Bool
  | [], _ => true
  | l :: layout, t =>
    if l = octet '.' || l = octet 'Z' then true
    else (isDigit l || t.head? == some l) && isAligned layout t.tail

/-- Whether a spelling denotes a moment. -/
def isMoment (t : Bytes) : Bool :=
  let t := canonicalMoment t
  match momentLayouts.find? fun layout => (layout.read t).isOk with
  | some layout => isAligned layout.toText t
  | none => false

end Brainfuck.Toml
