import Brainfuck.Disk
import Brainfuck.Instruction

/-!
# Traces

A trace describes code for a debugger: one line for each instruction, in a file of its own.

## Main Definitions

* `Recorder` — the lines of a trace as they are recorded
* `Recorder.path` — the file that a trace is written to
* `Recorder.flush` — writes the file
* `Document` — a written trace
-/

namespace Brainfuck

/-- A written trace. -/
structure Document where
  id : Bytes
  path : Bytes
  lines : Nat
  deriving DecidableEq, Repr

/-- Why a trace could not be written. -/
inductive TraceError where
  /-- The directory cannot be made. -/
  | directory (cause : DiskError)
  /-- The file cannot be written. -/
  | file (cause : DiskError)
  deriving DecidableEq, Repr

/-- The message of a trace error. -/
def TraceError.message : TraceError → Bytes
  | directory cause => text "trace dir: " ++ cause.message
  | file cause => text "write trace: " ++ cause.message

/-- The line of a trace for an instruction. -/
def traceLine (op : Option Command) (position : Position) : Bytes :=
  text (operationName op) ++ 0x09 :: position.toText ++ [0x0A]

/-- A trace that is being recorded. -/
structure Recorder where
  dir : Bytes
  id : Bytes
  lines : Array Bytes := #[]
  deriving DecidableEq, Repr

namespace Recorder

/-- The file that the trace is written to. -/
def path (r : Recorder) : Bytes :=
  Path.join r.dir (text "bfsource-" ++ r.id ++ text ".trace")

/-- Records an instruction and returns the number of its line, counted from one. -/
def record (r : Recorder) (op : Option Command) (position : Position) : Nat × Recorder :=
  let r := { r with lines := r.lines.push (traceLine op position) }
  (r.lines.size, r)

/-- The text of the trace. -/
def text (r : Recorder) : Bytes :=
  r.lines.toList.flatten

/-- Writes the trace, after making its directory if it has one. -/
def flush (r : Recorder) (disk : Disk) : Except TraceError Document × Disk :=
  let (made, disk) := if r.dir.isEmpty then (.ok (), disk) else disk.makeDirectories r.dir
  match made with
  | .error e => (.error (.directory e), disk)
  | .ok () =>
    match disk.write r.path r.text with
    | (.ok (), disk) => (.ok { id := r.id, path := r.path, lines := r.lines.size }, disk)
    | (.error e, disk) => (.error (.file e), disk)

end Recorder

end Brainfuck
