import Brainfuck.Store.Run
import Brainfuck.Store.Table

/-!
# Shelves

A shelf keeps named programs and benchmark runs in memory.

## Main Definitions

* `Shelf` — programs and runs by name
* `Shelf.get?`, `Shelf.put`, `Shelf.delete`, `Shelf.names` — the programs
* `Shelf.record`, `Shelf.runs` — the runs
-/

namespace Brainfuck

/-- Programs and runs kept in memory. -/
structure Shelf where
  programs : TextTable := .empty
  /-- The runs under each name, oldest first. -/
  history : KeyTable (List Run) := .empty
  deriving DecidableEq, Repr

namespace Shelf

/-- A shelf with nothing on it. -/
def empty : Shelf :=
  {}

/-- The source of a program. -/
def get? (s : Shelf) (name : Bytes) : Option Bytes :=
  s.programs.lookup name

/-- Keeps a program under a name, in place of an earlier one. -/
def put (s : Shelf) (name source : Bytes) : Shelf :=
  { s with programs := s.programs.set name source }

/-- Removes a program and its runs. -/
def delete (s : Shelf) (name : Bytes) : Shelf :=
  { programs := s.programs.remove name, history := s.history.remove name }

/-- The names of all programs in increasing byte order. -/
def names (s : Shelf) : List Bytes :=
  sortTexts s.programs.keys

/-- The runs under a name, oldest first. -/
def filed (s : Shelf) (name : Bytes) : List Run :=
  (s.history.lookup name).getD []

/-- Adds a run. -/
def record (s : Shelf) (run : Run) (now : Timestamp) : Shelf :=
  { s with history := s.history.set run.name (s.filed run.name ++ [run.stamped now]) }

/-- The runs of a program, newest first, up to a limit. -/
def runs (s : Shelf) (name : Bytes) (limit : Int) : List Run :=
  limited limit (s.filed name).reverse

end Shelf

end Brainfuck
