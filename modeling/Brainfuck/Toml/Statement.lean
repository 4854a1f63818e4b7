import Brainfuck.Toml.Number
import Brainfuck.Toml.Quotation

/-!
# Statements

Reads the statements of a TOML document.

## Main Definitions

* `isCleanText` — whether a text has only characters that a document may hold
* `key?` — the key at the head of a text
* `value?` — the value at the head of a text
* `statements?` — the statements of a text

## Design Notes

Every reader takes a text and gives a result with the text after it, or nothing. Values nest, so
their readers take a budget. Each call takes a byte or hands the text to a call that does, and a
budget of twice the length of the text is never used up.
-/

namespace Brainfuck.Toml

/-- The byte that opens an array or a header. -/
def openBracket : UInt8 :=
  0x5B

/-- The byte that closes an array or a header. -/
def closeBracket : UInt8 :=
  0x5D

/-- The byte that opens an inline table. -/
def openBrace : UInt8 :=
  0x7B

/-- The byte that closes an inline table. -/
def closeBrace : UInt8 :=
  0x7D

/-- The byte between items. -/
def comma : UInt8 :=
  0x2C

/-- The byte between a key and its value. -/
def equals : UInt8 :=
  0x3D

/-- Whether no byte is a control character other than a tab or a line end, and a carriage return
comes only before a line feed. -/
def hasCleanControls : Bytes → Bool
  | [] => true
  | b :: rest =>
    if b = 0x0D then rest.head? == some 0x0A && hasCleanControls rest
    else (b == 0x09 || b == 0x0A || (0x20 ≤ b && b != 0x7F)) && hasCleanControls rest

/-- Whether a text has only characters that a document may hold. -/
def isCleanText (t : Bytes) : Bool :=
  isUtf8 t && hasCleanControls t

/-- Skips blanks. -/
def skipSpace (t : Bytes) : Bytes :=
  t.dropWhile isSpace

/-- Skips blanks, line ends and comments. -/
def skipGaps (inComment : Bool) : Bytes → Bytes
  | [] => []
  | b :: rest =>
    if inComment then skipGaps (b != 0x0A) rest
    else if isSpace b || isLineEnd b then skipGaps false rest
    else if b = octet '#' then skipGaps true rest
    else b :: rest

/-- The text after the end of a line, which may have blanks and a comment before it. -/
def endLine? (t : Bytes) : Option Bytes :=
  match skipSpace t with
  | [] => some []
  | b :: rest =>
    if b = octet '#' then some (rest.dropWhile (· != 0x0A))
    else if isLineEnd b then some rest
    else none

/-- One part of a key, without the blanks before it. -/
def keyPart? (t : Bytes) : Option (Bytes × Bytes) :=
  match t with
  | [] => none
  | b :: rest =>
    if b = basicQuote || b = literalQuote then line? b rest
    else
      let part := t.takeWhile isBare
      if part.isEmpty then none else some (part, t.drop part.length)

/-- The key at the head of a text, and the text after it without leading blanks. -/
def keyWithin? : Nat → Bytes → Option (Key × Bytes)
  | 0, _ => none
  | budget + 1, t => do
    let (part, rest) ← keyPart? (skipSpace t)
    match skipSpace rest with
    | b :: rest =>
      if b = octet '.' then (keyWithin? budget rest).map fun (key, rest) => (part :: key, rest)
      else some ([part], b :: rest)
    | [] => some ([part], [])

/-- The key at the head of a text, and the text after it without leading blanks. -/
def key? (t : Bytes) : Option (Key × Bytes) :=
  keyWithin? (t.length + 1) t

/-- The text after a given byte, which has to come first. -/
def after? (b : UInt8) : Bytes → Option Bytes
  | [] => none
  | c :: rest => if c = b then some rest else none

/-- The text after a given word, which has to come first. -/
def afterWord? (word : String) (t : Bytes) : Option Bytes :=
  if (text word).isPrefixOf t then some (t.drop (text word).length) else none

/-- Splits a text after its leading bytes with a property. -/
def spanBytes (p : UInt8 → Bool) (t : Bytes) : Bytes × Bytes :=
  (t.takeWhile p, t.dropWhile p)

/-- A number after its sign, if it has one. -/
def number? (sign t : Bytes) : Option (Literal × Bytes) :=
  let (digits, rest) := spanBytes (fun b => isDigit b || b == octet '_') t
  let isFraction b := [octet '.', octet 'e', octet 'E'].contains b
  if !(t.head?.any isDigit) then none
  else if rest.head?.any isFraction then
    let more b := isDigit b || isFraction b || [octet '_', octet '-', octet '+'].contains b
    let (tail, rest) := spanBytes more rest
    let spelling := sign ++ digits ++ tail
    if isFloat spelling then some (.float spelling, rest) else none
  else (decimalInteger? (sign ++ digits)).map fun i => (.integer i, rest)

/-- A moment. The blanks after it are taken too. -/
def moment? (t : Bytes) : Option (Literal × Bytes) :=
  let more b := isDigit b || (text "-:Tt .Zz+").contains b
  let (taken, rest) := spanBytes more t
  let spelling := (taken.reverse.dropWhile isSpace).reverse
  if isMoment spelling then some (.moment spelling, rest) else none

/-- The bases with a letter of their own. -/
def bases : List (UInt8 × Nat) :=
  [(octet 'x', 16), (octet 'o', 8), (octet 'b', 2)]

/-- A number without a sign, or a moment. -/
def numberOrMoment? (t : Bytes) : Option (Literal × Bytes) :=
  match t with
  | z :: letter :: rest =>
    match if z = octet '0' then bases.lookup letter else none with
    | some base =>
      let isBaseDigit b := (Numeral.digit? base b).isSome
      let (digits, after) := spanBytes (fun b => isBaseDigit b || b == octet '_') rest
      if rest.head?.any isBaseDigit then
        (basedInteger? (z :: letter :: digits)).map fun i => (.integer i, after)
      else none
    | none =>
      if ((t.dropWhile isDigit).head?.any fun b => b == octet '-' || b == octet ':') then
        moment? t
      else number? [] t
  | _ => number? [] t

/-- A float that is not finite. -/
def special? (sign t : Bytes) : Option (Literal × Bytes) :=
  ["inf", "nan"].findSome? fun word =>
    (afterWord? word t).map fun rest => (.float (sign ++ text word), rest)

/-- A value that is neither a string, an array nor a table. -/
def scalar? (t : Bytes) : Option (Literal × Bytes) :=
  match t with
  | [] => none
  | b :: rest =>
    if isDigit b then numberOrMoment? t
    else if b = octet '+' || b = octet '-' then special? [b] rest <|> number? [b] rest
    else
      (afterWord? "true" t).map (.truth true, ·) <|>
        (afterWord? "false" t).map (.truth false, ·) <|> special? [] t

mutual

/-- The value at the head of a text. -/
def valueWithin? : Nat → Bytes → Option (Literal × Bytes)
  | 0, _ => none
  | budget + 1, t =>
    match t with
    | [] => none
    | b :: rest =>
      if b = openBracket then
        (itemsWithin? budget rest).map fun (items, rest) => (.array items, rest)
      else if b = openBrace then
        (pairsWithin? budget rest).map fun (pairs, rest) => (.inline pairs, rest)
      else if b = basicQuote || b = literalQuote then
        (quotation? b rest).map fun (value, rest) => (.text value, rest)
      else scalar? t

/-- The items of an array up to its closing bracket. -/
def itemsWithin? : Nat → Bytes → Option (List Literal × Bytes)
  | 0, _ => none
  | budget + 1, t =>
    match after? closeBracket (skipGaps false t) with
    | some rest => some ([], rest)
    | none => do
      let (item, rest) ← valueWithin? budget (skipGaps false t)
      let rest := skipGaps false rest
      match after? comma rest with
      | some rest => (itemsWithin? budget rest).map fun (items, rest) => (item :: items, rest)
      | none => (after? closeBracket rest).map fun rest => ([item], rest)

/-- The entries of an inline table up to its closing brace. -/
def pairsWithin? : Nat → Bytes → Option (List (Key × Literal) × Bytes)
  | 0, _ => none
  | budget + 1, t =>
    match after? closeBrace (skipGaps false t) with
    | some rest => some ([], rest)
    | none => do
      let (key, rest) ← key? (skipGaps false t)
      let (value, rest) ← valueWithin? budget (skipSpace (← after? equals rest))
      let rest := skipGaps false rest
      match after? comma rest with
      | some rest =>
        (pairsWithin? budget rest).map fun (pairs, rest) => ((key, value) :: pairs, rest)
      | none => (after? closeBrace rest).map fun rest => ([(key, value)], rest)

end

/-- The value at the head of a text. -/
def value? (t : Bytes) : Option (Literal × Bytes) :=
  valueWithin? (2 * t.length + 2) t

/-- The header of a table or of an element of an array of tables, after its first bracket. -/
def header? (t : Bytes) : Option (Statement × Bytes) :=
  match after? openBracket t with
  | some rest => do
    let (key, rest) ← key? rest
    some (.element key, ← after? closeBracket (← after? closeBracket rest))
  | none => do
    let (key, rest) ← key? t
    some (.table key, ← after? closeBracket rest)

/-- An entry. -/
def entry? (t : Bytes) : Option (Statement × Bytes) := do
  let (key, rest) ← key? t
  let (value, rest) ← value? (skipSpace (← after? equals rest))
  some (.entry key value, rest)

/-- The statements of a text, at most as many as the budget. -/
def statementsWithin? : Nat → Bytes → Option (List Statement)
  | 0, _ => none
  | budget + 1, t =>
    match skipGaps false t with
    | [] => some []
    | t => do
      let (statement, rest) ← match after? openBracket t with
        | some rest => header? rest
        | none => entry? t
      let statements ← statementsWithin? budget (← endLine? rest)
      some (statement :: statements)

/-- The statements of a text. -/
def statements? (t : Bytes) : Option (List Statement) :=
  statementsWithin? (t.length + 1) t

end Brainfuck.Toml
