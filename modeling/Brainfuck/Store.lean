import Brainfuck.Disk
import Brainfuck.Store.Engine
import Brainfuck.Store.Shelf

/-!
# Stores

A store keeps programs and their runs, either on a shelf in memory or in a database on a disk.

## Main Definitions

* `Store` — a shelf, or a handle to a database
* `Store.openDatabase` — a store on the database that a name stands for
* `Store.get?`, `Store.put`, `Store.delete`, `Store.names`, `Store.record`, `Store.runs`,
  `Store.close` — the calls on a store

## Design Notes

The content of a database stays on the disk, so that every handle to it sees what another one
wrote. A closed handle refuses every call but another close; a shelf cannot be closed. A database
that cannot be written can be opened if it needs no preparation, and then refuses every change.
-/

namespace Brainfuck

/-- Where programs and runs are kept. -/
inductive Store where
  | shelf (content : Shelf)
  /-- The database at a path. -/
  | database (path : Bytes) (isOpen : Bool)
  /-- The database at a path, which cannot be written. -/
  | readOnly (path : Bytes) (isOpen : Bool)
  /-- A database of its own, which no path names. -/
  | scratch (content : Database) (isOpen : Bool)
  deriving DecidableEq, Repr

namespace Store

/-- Opens the database at a path that can be written. -/
def openFile (name path : Bytes) (disk : Disk) : Except StoreError Store × Disk :=
  match disk.database path with
  | .error cause => (.error (.openFailed name cause), disk)
  | .ok (l, db) =>
    let (r, db) := db.adopt
    (r.map fun _ => .database path true, disk.set l (.database db))

/-- Opens the database at a path that cannot be written. It has to be there, with all tables and a
version. -/
def openReadOnly (name path : Bytes) (disk : Disk) : Except StoreError Store :=
  match disk.stat path, disk.database path with
  | .error _, _ => .error (.openFailed name .cannotOpen)
  | .ok _, .error cause => .error (.openFailed name cause)
  | .ok _, .ok (_, db) =>
    let (r, adopted) := db.adopt
    if db.createTables ≠ db then .error (.openFailed name .readOnly)
    else if adopted ≠ db then .error (.engine .readOnly)
    else r.map fun _ => .readOnly path true

/-- Opens the database that a name stands for. -/
def openDatabase (engine : Engine) (name : Bytes) (disk : Disk) :
    Except StoreError Store × Disk :=
  match engine.resolve name with
  | .scratch => (.ok (.scratch Database.empty.adopt.2 true), disk)
  | .file path .readWrite => openFile name path disk
  | .file path .readOnly => (openReadOnly name path disk, disk)
  | .refused => (.error (.openFailed name .cannotOpen), disk)

/-- Asks a question of the content of a store. -/
def query {α : Type} (s : Store) (disk : Disk) (onShelf : Shelf → α)
    (onDatabase : Database → Except StoreError α) : Except StoreError α :=
  match s with
  | .shelf content => .ok (onShelf content)
  | .database path true | .readOnly path true =>
    match disk.database path with
    | .ok (_, db) => onDatabase db
    | .error cause => .error (.engine cause)
  | .scratch db true => onDatabase db
  | .database _ false | .readOnly _ false | .scratch _ false => .error .closed

/-- Changes the content of a store. -/
def change (s : Store) (disk : Disk) (onShelf : Shelf → Shelf)
    (onDatabase : Database → Except StoreError Unit × Database) :
    Except StoreError Unit × Store × Disk :=
  match s with
  | .shelf content => (.ok (), .shelf (onShelf content), disk)
  | .database path true =>
    match disk.database path with
    | .ok (l, db) =>
      let (r, db) := onDatabase db
      (r, s, disk.set l (.database db))
    | .error cause => (.error (.engine cause), s, disk)
  | .scratch db true =>
    let (r, db) := onDatabase db
    (r, .scratch db true, disk)
  | .readOnly _ true => (.error (.engine .readOnly), s, disk)
  | .database _ false | .readOnly _ false | .scratch _ false => (.error .closed, s, disk)

/-- The source of a program. -/
def get? (s : Store) (disk : Disk) (name : Bytes) : Except StoreError (Option Bytes) :=
  s.query disk (·.get? name) (·.get? name)

/-- Keeps a program under a name, in place of an earlier one. -/
def put (s : Store) (disk : Disk) (name source : Bytes) : Except StoreError Unit × Store × Disk :=
  s.change disk (·.put name source) (·.put name source)

/-- Removes a program and its runs. -/
def delete (s : Store) (disk : Disk) (name : Bytes) : Except StoreError Unit × Store × Disk :=
  s.change disk (·.delete name) (·.delete name)

/-- The names of all programs in increasing byte order. -/
def names (s : Store) (disk : Disk) : Except StoreError (List Bytes) :=
  s.query disk (·.names) (·.names)

/-- Adds a run, at the time `now` if it has none. -/
def record (s : Store) (disk : Disk) (run : Run) (now : Timestamp) :
    Except StoreError Unit × Store × Disk :=
  s.change disk (·.record run now) (·.record run now)

/-- The runs of a program, newest first, up to a limit. -/
def runs (s : Store) (disk : Disk) (name : Bytes) (limit : Int) : Except StoreError (List Run) :=
  s.query disk (·.runs name limit) (·.runs name limit)

/-- Ends the use of a store. -/
def close : Store → Store
  | .shelf content => .shelf content
  | .database path _ => .database path false
  | .readOnly path _ => .readOnly path false
  | .scratch content _ => .scratch content false

end Store

end Brainfuck
