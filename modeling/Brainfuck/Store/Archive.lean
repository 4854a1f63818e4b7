import Brainfuck.Store.Database
import Brainfuck.Text.Numeral

/-!
# Archives

A database as bytes, so that it can be kept in a file.

## Main Definitions

* `Archive.write` — the bytes of a database
* `Archive.read?` — the database of bytes

## Design Notes

An archive is a mark and a list of fields. A field has its length in front of it and so may hold
any bytes. A table that is missing has no fields at all. A table with a key that occurs twice, or
with runs out of order, is none.
-/

namespace Brainfuck.Archive

/-- The first bytes of every archive. -/
def mark : Bytes :=
  text "bf store 1\n"

/-- The bytes of a field. -/
def writeField (field : Bytes) : Bytes :=
  decimal field.length ++ 0x3A :: field

/-- The fields of a row of a table of texts. -/
def textRowFields (row : Bytes × Bytes) : List Bytes :=
  [row.1, row.2]

/-- The fields of a table of texts. -/
def textFields (table : Table) (found : Option TextTable) : List Bytes :=
  match found with
  | none => []
  | some t =>
    text table.name :: decimal t.rows.length :: t.rows.flatMap textRowFields

/-- The fields of a row of the table of runs. -/
def rowFields (row : RunRow) : List Bytes :=
  [signed row.id, row.name, signed row.iterations.toInt, signed row.elapsed.toInt,
    signed row.output.toInt, row.time]

/-- The fields of the table of runs. -/
def runFields (runs : Option RunTable) : List Bytes :=
  match runs with
  | none => []
  | some runs =>
    text Table.runs.name :: signed runs.lastId :: decimal runs.rows.length ::
      runs.rows.flatMap rowFields

/-- The fields of a database. -/
def fieldsOf (db : Database) : List Bytes :=
  textFields .programs db.programs ++ (runFields db.history ++ textFields .metadata db.metadata)

/-- The bytes of a database. -/
def write (db : Database) : Bytes :=
  mark ++ (fieldsOf db).flatMap writeField

/-- The first field of some bytes, and the bytes after it. -/
def readField? (bytes : Bytes) : Option (Bytes × Bytes) :=
  let digits := bytes.takeWhile isDigit
  let rest := bytes.drop (digits.length + 1)
  let size := ofDecimal digits
  if digits.isEmpty || rest.length < size then none else some (rest.take size, rest.drop size)

/-- The fields of some bytes, at most as many as the budget. -/
def readFields? (budget : Nat) (bytes : Bytes) : Option (List Bytes) :=
  if bytes.isEmpty then some []
  else match budget with
    | 0 => none
    | budget + 1 => do
      let (field, rest) ← readField? bytes
      (readFields? budget rest).map (field :: ·)

/-- A number of rows. -/
def readCount? (field : Bytes) : Option Nat :=
  (Numeral.ofSigned? field).map Int.toNat

/-- A word of 64 bits. -/
def readWord? (field : Bytes) : Option Int64 :=
  (Numeral.ofDecimal? field).map Int64.ofInt

/-- The rows of a table of texts, and the fields after them. -/
def readTexts? : Nat → List Bytes → Option (List (Bytes × Bytes) × List Bytes)
  | 0, fields => some ([], fields)
  | count + 1, key :: value :: fields =>
    (readTexts? count fields).map fun (rows, fields) => ((key, value) :: rows, fields)
  | _ + 1, _ => none

/-- The rows of the table of runs, and the fields after them. -/
def readRows? : Nat → List Bytes → Option (List RunRow × List Bytes)
  | 0, fields => some ([], fields)
  | count + 1, id :: name :: iterations :: elapsed :: output :: time :: fields => do
    let row : RunRow :=
      { id := ← Numeral.ofSigned? id, name, iterations := ← readWord? iterations,
        elapsed := ← readWord? elapsed, output := ← readWord? output, time }
    let (rows, fields) ← readRows? count fields
    some (row :: rows, fields)
  | _ + 1, _ => none

/-- The table of texts at the head of some fields, if it is there, and the fields after it. -/
def readTextTable? (table : Table) (fields : List Bytes) :
    Option (Option TextTable × List Bytes) :=
  match fields with
  | name :: count :: rest =>
    if name == text table.name then do
      let (rows, rest) ← readTexts? (← readCount? count) rest
      if nodup : (rows.map (·.1)).Nodup then some (some { rows, nodup }, rest) else none
    else some (none, fields)
  | _ => some (none, fields)

/-- The table of runs at the head of some fields, if it is there, and the fields after it. -/
def readRunTable? (fields : List Bytes) : Option (Option RunTable × List Bytes) :=
  match fields with
  | name :: lastId :: count :: rest =>
    if name == text Table.runs.name then do
      let lastId ← Numeral.ofSigned? lastId
      let (rows, rest) ← readRows? (← readCount? count) rest
      if h : rows.Pairwise (·.id < ·.id) ∧ ∀ row ∈ rows, row.id ≤ lastId then
        some (some { rows, lastId, sorted := h.1, bounded := h.2 }, rest)
      else none
    else some (none, fields)
  | _ => some (none, fields)

/-- The database of some fields. -/
def ofFields? (fields : List Bytes) : Option Database := do
  let (programs, fields) ← readTextTable? .programs fields
  let (history, fields) ← readRunTable? fields
  let (metadata, fields) ← readTextTable? .metadata fields
  if fields.isEmpty then some { programs, history, metadata } else none

/-- The database of some bytes. -/
def read? (bytes : Bytes) : Option Database :=
  if mark.isPrefixOf bytes then
    let bytes := bytes.drop mark.length
    (readFields? bytes.length bytes).bind ofFields?
  else none

end Brainfuck.Archive
