import Brainfuck.Store.Database
import Brainfuck.Text.Path

/-!
# Disks

A disk holds directories, files and databases. Paths are resolved element by element from the root
or, if they do not start with a slash, from the working directory.

## Main Definitions

* `Disk` — the nodes by location, and the working directory
* `Disk.walk` — the location that a path names
* `Disk.read`, `Disk.write`, `Disk.makeDirectories` — the operations on paths
* `DiskError` — which operation on which path failed, and why

## Design Notes

A location is the list of element names from the root. Every location on a disk other than the
root stands for itself: there are no links. Everything on a disk can be read and written; which
databases can only be read is a matter of the engine that opens them.
-/

namespace Brainfuck

/-- The names from the root to a node. -/
abbrev Location := List Bytes

/-- What a location holds. -/
inductive Node where
  | directory
  | file (content : Bytes)
  | database (content : Database)
  deriving DecidableEq, Repr

/-- Why an operation on a path failed. -/
inductive DiskReason where
  | notFound
  | notDirectory
  | isDirectory
  | alreadyExists
  | nameTooLong
  | invalidName
  deriving DecidableEq, Repr

/-- The message of a reason. -/
def DiskReason.message : DiskReason → Bytes
  | notFound => text "no such file or directory"
  | notDirectory => text "not a directory"
  | isDirectory => text "is a directory"
  | alreadyExists => text "file exists"
  | nameTooLong => text "file name too long"
  | invalidName => text "invalid argument"

/-- The operations on a path. -/
inductive DiskOperation where
  | openFile
  | readFile
  | makeDirectory
  deriving DecidableEq, Repr

/-- The word for an operation. -/
def DiskOperation.word : DiskOperation → Bytes
  | openFile => text "open"
  | readFile => text "read"
  | makeDirectory => text "mkdir"

/-- A failed operation on a path. -/
structure DiskError where
  operation : DiskOperation
  path : Bytes
  reason : DiskReason
  deriving DecidableEq, Repr

/-- The message of a disk error. -/
def DiskError.message (e : DiskError) : Bytes :=
  e.operation.word ++ text " " ++ e.path ++ text ": " ++ e.reason.message

/-- Directories, files and databases. The root is always a directory. -/
structure Disk where
  nodes : List (Location × Node) := []
  working : Location := []
  deriving DecidableEq, Repr

namespace Disk

/-- The greatest length of an element of a path. -/
def maxNameLength : Nat :=
  255

/-- The greatest length of a path. -/
def maxPathLength : Nat :=
  4095

/-- What a location holds. -/
def node? (d : Disk) (l : Location) : Option Node :=
  if l.isEmpty then some .directory else d.nodes.lookup l

/-- Puts a node at a location. -/
def set (d : Disk) (l : Location) (n : Node) : Disk :=
  { d with nodes := (l, n) :: d.nodes.filter (·.1 != l) }

/-- Resolves elements from a location. Every element needs a directory to start from; the last one
need not exist. -/
def walk (d : Disk) : Location → List Bytes → Except DiskReason Location
  | here, [] => .ok here
  | here, e :: rest =>
    match d.node? here with
    | none => .error .notFound
    | some .directory =>
      if e.isEmpty || e == Path.self then d.walk here rest
      else if e == Path.above then d.walk here.dropLast rest
      else if maxNameLength < e.length then .error .nameTooLong
      else d.walk (here ++ [e]) rest
    | some _ => .error .notDirectory

/-- The location that a path names. -/
def locate (d : Disk) (path : Bytes) : Except DiskReason Location :=
  if path.isEmpty then .error .notFound
  else if path.contains 0 then .error .invalidName
  else if maxPathLength < path.length then .error .nameTooLong
  else d.walk (if Path.isRooted path then [] else d.working) (Path.elements path)

/-- What a path names. -/
def stat (d : Disk) (path : Bytes) : Except DiskReason Node := do
  let l ← d.locate path
  match d.node? l with
  | some n => .ok n
  | none => .error .notFound

/-- The first bytes of every database. -/
def databaseMark : Bytes :=
  text "SQLite format 3" ++ [0]

/-- The content of a file. -/
def read (d : Disk) (path : Bytes) : Except DiskError Bytes :=
  match d.stat path with
  | .error reason => .error ⟨.openFile, path, reason⟩
  | .ok .directory => .error ⟨.readFile, path, .isDirectory⟩
  | .ok (.file content) => .ok content
  | .ok (.database _) => .ok databaseMark

/-- Writes a file, in place of an earlier one. -/
def write (d : Disk) (path content : Bytes) : Except DiskError Unit × Disk :=
  match d.locate path with
  | .error reason => (.error ⟨.openFile, path, reason⟩, d)
  | .ok l =>
    match d.node? l with
    | some .directory => (.error ⟨.openFile, path, .isDirectory⟩, d)
    | _ => (.ok (), d.set l (.file content))

/-- A path without the slashes at its end. -/
def trimSlashes (path : Bytes) : Bytes :=
  (path.reverse.dropWhile (· == Path.slash)).reverse

/-- Makes one directory. -/
def makeDirectory (d : Disk) (path : Bytes) : Except DiskError Disk :=
  let failed reason := Except.error ⟨.makeDirectory, path, reason⟩
  let trimmed := trimSlashes path
  match d.locate (if trimmed.isEmpty then path else trimmed) with
  | .error reason => failed reason
  | .ok l =>
    match d.node? l with
    | some _ => failed .alreadyExists
    | none => .ok (d.set l .directory)

/-- The path before the last element of a path, if there is one. -/
def parentPath? (path : Bytes) : Option Bytes :=
  let front := (trimSlashes path).reverse.dropWhile (· != Path.slash)
  if 1 < front.length then some (path.take (front.length - 1)) else none

/-- Makes a directory and those above it, as far as they are missing. `depth` bounds the number of
directories above. -/
def makeDirectoriesWithin (d : Disk) (path : Bytes) : Nat → Except DiskError Unit × Disk
  | 0 => (.error ⟨.makeDirectory, path, .notFound⟩, d)
  | depth + 1 =>
    match d.stat path with
    | .ok .directory => (.ok (), d)
    | .ok _ => (.error ⟨.makeDirectory, path, .notDirectory⟩, d)
    | .error _ =>
      let (above, d) : Except DiskError Unit × Disk := match parentPath? path with
        | none => (.ok (), d)
        | some parent => d.makeDirectoriesWithin parent depth
      match above with
      | .error e => (.error e, d)
      | .ok () =>
        match d.makeDirectory path with
        | .ok d => (.ok (), d)
        | .error e =>
          match d.stat path with
          | .ok .directory => (.ok (), d)
          | _ => (.error e, d)

/-- Makes a directory and those above it, as far as they are missing. -/
def makeDirectories (d : Disk) (path : Bytes) : Except DiskError Unit × Disk :=
  d.makeDirectoriesWithin path (path.length + 1)

/-- The location and content of the database at a path. An empty file is a database without
tables, and a path that names nothing yet is one too. -/
def database (d : Disk) (path : Bytes) : Except EngineError (Location × Database) :=
  match d.locate path with
  | .error _ => .error .cannotOpen
  | .ok l =>
    match d.node? l with
    | none => .ok (l, Database.empty)
    | some .directory => .error .cannotOpen
    | some (.file content) =>
      if content.isEmpty then .ok (l, Database.empty) else .error .notADatabase
    | some (.database db) => .ok (l, db)

/-- The paths below the working directory of all files and databases, in increasing byte order. -/
def files (d : Disk) : List Bytes :=
  sortTexts <| d.nodes.filterMap fun (l, n) =>
    if n != .directory && d.working.isPrefixOf l then
      some (Path.joinElements (l.drop d.working.length))
    else none

end Disk

end Brainfuck
