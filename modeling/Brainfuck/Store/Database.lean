import Brainfuck.Store.Run
import Brainfuck.Store.Table
import Brainfuck.Time.Rfc3339

/-!
# Databases

A database keeps programs and runs in tables. A table may be missing: a statement that names it
then fails and changes nothing.

## Main Definitions

* `RunTable` — the table of runs, in increasing order of their numbers
* `Database` — the three tables
* `Database.adopt` — prepares a database for use and checks its version
* `Database.get?`, `Database.put`, `Database.delete`, `Database.names`, `Database.record`,
  `Database.runs` — the calls on an open database

## Design Notes

A call is a sequence of statements, each of which happens as a whole or not at all. A call that
fails therefore also says which database it leaves behind. Runs are numbered in the order in which
they are added, and the table of runs holds them in this order: to list them by decreasing number is
to read it from its end. Numbers may be negative and have no bound here. The time of a run is kept
as text, which need not denote a timestamp.
-/

namespace Brainfuck

/-- The tables of a database. -/
inductive Table where
  | programs
  | runs
  | metadata
  deriving DecidableEq, Repr

/-- The name of a table. -/
def Table.name : Table → String
  | programs => "programs"
  | runs => "runs"
  | metadata => "metadata"

/-- Why the database engine refused a file or a statement. -/
inductive EngineError where
  | noSuchTable (table : Table)
  | cannotOpen
  | notADatabase
  /-- The database cannot be written. -/
  | readOnly
  deriving DecidableEq, Repr

/-- The message of the database engine. -/
def EngineError.message : EngineError → Bytes
  | noSuchTable table => text "no such table: " ++ text table.name
  | cannotOpen => text "unable to open database file"
  | notADatabase => text "file is not a database"
  | readOnly => text "attempt to write a readonly database"

/-- Why a call on a store failed. -/
inductive StoreError where
  | engine (cause : EngineError)
  /-- The database at a path cannot be opened. -/
  | openFailed (path : Bytes) (cause : EngineError)
  | closed
  /-- The database has a version that this program does not know. -/
  | version (found : Bytes)
  /-- The time of a run is no timestamp. -/
  | badTime (time : Bytes) (cause : ClockError)
  deriving DecidableEq, Repr

/-- The version of the tables. -/
def schemaVersion : Bytes :=
  text "1"

/-- The key of the version among the metadata. -/
def versionKey : Bytes :=
  text "schema_version"

/-- The message of a store error. -/
def StoreError.message : StoreError → Bytes
  | engine cause => cause.message
  | openFailed path cause => text "open store " ++ path ++ text ": " ++ cause.message
  | closed => text "sql: database is closed"
  | version found =>
    text "unsupported schema version: " ++ found ++ text " (expected " ++ schemaVersion ++
      text ")"
  | badTime time cause =>
    text "run timestamp " ++ quoted time ++ text ": " ++ Rfc3339.errorMessage time cause

/-- A row of the table of runs. -/
structure RunRow where
  id : Int
  name : Bytes
  iterations : Int64
  elapsed : Int64
  output : Int64
  /-- The time as text. -/
  time : Bytes
  deriving DecidableEq, Repr

/-- The table of runs in increasing order of their numbers, with the last number given. -/
@[ext]
structure RunTable where
  rows : List RunRow := []
  lastId : Int := 0
  sorted : rows.Pairwise (·.id < ·.id) := by decide
  bounded : ∀ row ∈ rows, row.id ≤ lastId := by decide
  deriving DecidableEq, Repr

namespace RunTable

/-- A table without rows. The first number that it gives is one. -/
def empty : RunTable where
  rows := []
  lastId := 0
  sorted := List.Pairwise.nil
  bounded := fun _ hrow => absurd hrow List.not_mem_nil

/-- Adds a row to the table of runs under the next number. -/
def add (table : RunTable) (name : Bytes) (iterations elapsed output : Int64) (time : Bytes) :
    RunTable where
  rows := table.rows ++ [{ id := table.lastId + 1, name, iterations, elapsed, output, time }]
  lastId := table.lastId + 1
  sorted := by
    refine List.pairwise_append.mpr ⟨table.sorted, List.pairwise_singleton _ _, ?_⟩
    intro row hrow new hnew
    rw [List.mem_singleton.mp hnew]
    exact Int.lt_add_one_of_le (table.bounded row hrow)
  bounded := by
    intro row hrow
    obtain hrow | hnew := List.mem_append.mp hrow
    · exact Int.le_trans (table.bounded row hrow) (Int.le_add_of_nonneg_right (by decide))
    · have hid : row.id = table.lastId + 1 := by rw [List.mem_singleton.mp hnew]
      exact Int.le_of_eq hid

/-- Removes the rows of a name. The numbers go on from the last one given. -/
def remove (table : RunTable) (name : Bytes) : RunTable where
  rows := table.rows.filter (·.name != name)
  lastId := table.lastId
  sorted := table.sorted.sublist List.filter_sublist
  bounded := fun row hrow => table.bounded row (List.mem_filter.mp hrow).1

end RunTable

/-- The tables of a database, each of which may be missing. -/
structure Database where
  programs : Option TextTable := none
  history : Option RunTable := none
  metadata : Option TextTable := none
  deriving DecidableEq, Repr

/-- The run of a row, if its time is a timestamp. -/
def RunRow.toRun (row : RunRow) : Except StoreError Run :=
  match Rfc3339.read row.time with
  | .ok time =>
    .ok { name := row.name, iterations := row.iterations, elapsed := row.elapsed,
          output := row.output, time }
  | .error cause => .error (.badTime row.time cause)

namespace Database

/-- A database without tables. -/
def empty : Database :=
  {}

/-- Creates the tables that are missing. -/
def createTables (db : Database) : Database where
  programs := some (db.programs.getD .empty)
  history := some (db.history.getD .empty)
  metadata := some (db.metadata.getD .empty)

/-- The rows of a table that a statement needs. -/
def require {α : Type} (table : Table) (rows : Option α) : Except StoreError α :=
  match rows with
  | some rows => .ok rows
  | none => .error (.engine (.noSuchTable table))

/-- Prepares a database for use: creates missing tables, and sets the version if there is none. A
version other than the known one is an error. -/
def adopt (db : Database) : Except StoreError Unit × Database :=
  let db := db.createTables
  let metadata := db.metadata.getD .empty
  let found := (metadata.lookup versionKey).getD []
  if found.isEmpty then
    (.ok (), { db with metadata := some (metadata.set versionKey schemaVersion) })
  else if found == schemaVersion then (.ok (), db)
  else (.error (.version found), db)

/-- The source of a program. -/
def get? (db : Database) (name : Bytes) : Except StoreError (Option Bytes) := do
  let programs ← require .programs db.programs
  .ok (programs.lookup name)

/-- Keeps a program under a name, in place of an earlier one. -/
def put (db : Database) (name source : Bytes) : Except StoreError Unit × Database :=
  match require .programs db.programs with
  | .ok programs => (.ok (), { db with programs := some (programs.set name source) })
  | .error e => (.error e, db)

/-- Removes a program, and then its runs. -/
def delete (db : Database) (name : Bytes) : Except StoreError Unit × Database :=
  match require .programs db.programs with
  | .error e => (.error e, db)
  | .ok programs =>
    let db := { db with programs := some (programs.remove name) }
    match require .runs db.history with
    | .error e => (.error e, db)
    | .ok table => (.ok (), { db with history := some (table.remove name) })

/-- The names of all programs in increasing byte order. -/
def names (db : Database) : Except StoreError (List Bytes) := do
  let programs ← require .programs db.programs
  .ok (sortTexts programs.keys)

/-- Adds a run. -/
def record (db : Database) (run : Run) (now : Timestamp) : Except StoreError Unit × Database :=
  match require .runs db.history with
  | .error e => (.error e, db)
  | .ok table =>
    let run := run.stamped now
    let table := table.add run.name run.iterations run.elapsed run.output (Rfc3339.write run.time)
    (.ok (), { db with history := some table })

/-- The runs of a program, newest first, up to a limit. The first row whose time is no timestamp
fails the call. -/
def runs (db : Database) (name : Bytes) (limit : Int) : Except StoreError (List Run) := do
  let table ← require .runs db.history
  let rows := limited limit (table.rows.filter (·.name == name)).reverse
  rows.mapM RunRow.toRun

end Database

end Brainfuck
