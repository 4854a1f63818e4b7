import Brainfuck.Block
import Brainfuck.Source
import Brainfuck.Trace

/-!
# Programs

A program is compiled from a source in one pass over its commands. Each loop is a block of an
arena; a loop that the source leaves open is closed at its end, unless brackets are strict.

## Main Definitions

* `BracketError` — a bracket without a partner
* `CompileError` — why a source has no program
* `Builder` — the state of a compilation
* `Builder.accept` — the effect of one command
* `Program.compile` — the program of a source

## Design Notes

A builder keeps the handle of the current block and those of the blocks around it. The arena checks
every call; a fault of the arena would end the compilation with an error of its own.
-/

namespace Brainfuck

/-- A bracket without a partner. -/
inductive BracketError where
  /-- A closing bracket that closes nothing. -/
  | unmatched (position : Position)
  /-- An opening bracket that is never closed. -/
  | unclosed (position : Position)
  deriving DecidableEq, Repr

/-- The message of a bracket error. -/
def BracketError.message : BracketError → Bytes
  | unmatched p => text "syntax error at " ++ p.toText ++ text ": unmatched ']'"
  | unclosed p => text "syntax error at " ++ p.toText ++ text ": unclosed '['"

/-- Why a source has no program. -/
inductive CompileError where
  | brackets (cause : BracketError)
  /-- The feed of the source failed. -/
  | unreadable (message : Bytes)
  /-- The trace does not have one line for each instruction. -/
  | traceLength (lines instructions : Nat)
  | trace (cause : TraceError)
  | fault (cause : Fault)
  deriving DecidableEq, Repr

/-- The message of a compile error. -/
def CompileError.message : CompileError → Bytes
  | brackets cause => cause.message
  | unreadable m => text "read source: " ++ m
  | traceLength lines instructions =>
    text "trace has " ++ decimal lines ++ text " lines for " ++ decimal instructions ++
      text " instructions"
  | trace cause => cause.message
  | fault cause => cause.message

/-- A compilation after some commands. -/
structure Builder where
  arena : Arena
  /-- The innermost open block. -/
  current : Handle
  /-- The open blocks around the current one, innermost first. -/
  stack : List Handle
  recorder : Option Recorder
  deriving DecidableEq, Repr

namespace Builder

/-- Turns a fault of the arena into a compile error. -/
def lift {α : Type} : Except Fault α → Except CompileError α
  | .ok a => .ok a
  | .error f => .error (.fault f)

/-- A compilation before the first command: one block is open. -/
def start (recorder : Option Recorder) : Except CompileError Builder := do
  let (current, arena) ← lift (Arena.empty.openBlock Handle.none false {})
  .ok { arena, current, stack := [], recorder }

/-- Makes the instruction for a command, recording its trace line. -/
def emit (recorder : Option Recorder) (c : Command) (p : Position) :
    Instruction × Option Recorder :=
  match recorder with
  | none => ({ op := some c, position := p }, none)
  | some r =>
    let (line, r) := r.record (some c) p
    ({ op := some c, position := p, line }, some r)

/-- Completes the current loop; the block around it becomes current. -/
def closeLoop (b : Builder) (p : Position) : Except CompileError Builder :=
  match b with
  | { arena, current, stack, recorder } => do
    let (exit, recorder) := emit recorder .loopEnd p
    let arena ← lift (arena.complete current exit)
    match stack with
    | [] => .error (.fault (.index (-1) 0))
    | current :: stack => .ok { arena, current, stack, recorder }

/-- Takes the next command of the source. -/
def accept (b : Builder) (c : Command) (p : Position) : Except CompileError Builder :=
  match c, b with
  | .loopStart, { arena, current, stack, recorder } => do
    let (guard, recorder) := emit recorder .loopStart p
    let (inner, arena) ← lift (arena.openBlock current true guard)
    .ok { arena, current := inner, stack := current :: stack, recorder }
  | .loopEnd, b =>
    if b.stack.isEmpty then .error (.brackets (.unmatched p)) else b.closeLoop p
  | c, { arena, current, stack, recorder } => do
    let (i, recorder) := emit recorder c p
    let arena ← lift (arena.append current i)
    .ok { arena, current, stack, recorder }

/-- Closes the loops that are still open, innermost first. With strict brackets the innermost one
is an error. -/
def closeAll (strict : Bool) (b : Builder) : Except CompileError Builder :=
  if strict && !b.stack.isEmpty then do
    let block ← lift (b.arena.get b.current)
    .error (.brackets (.unclosed block.opened))
  else b.stack.foldlM (fun b _ => b.closeLoop Position.implicit) b

/-- Completes the outermost block. -/
def finish (b : Builder) : Except CompileError Builder := do
  let arena ← lift (b.arena.complete b.current {})
  .ok { b with arena }

/-- The builder after all commands of a source. -/
def run (strict : Bool) (recorder : Option Recorder) (source : Feed) :
    Except CompileError Builder := do
  let b ← start recorder
  let b ← foldCommands accept Cursor.start b source.bytes
  match source.failure with
  | some m => .error (.unreadable m)
  | none =>
    let b ← b.closeAll strict
    b.finish

end Builder

/-- A compiled program: its code and, if it was traced, its trace. -/
structure Program where
  code : Code
  document : Option Document := none
  deriving DecidableEq, Repr

/-- Where a trace is written and under which identity. -/
structure TraceSettings where
  dir : Bytes
  id : Bytes
  deriving DecidableEq, Repr

/-- The settings of a compilation. -/
structure CompileSettings where
  strict : Bool := false
  trace : Option TraceSettings := none
  deriving DecidableEq, Repr

namespace Program

/-- Compiles a source. The trace, if one is asked for, is written once everything else has
succeeded. -/
def compile (settings : CompileSettings) (source : Feed) (disk : Disk) :
    Except CompileError Program × Disk :=
  let recorder := settings.trace.map fun t => { dir := t.dir, id := t.id : Recorder }
  match Builder.run settings.strict recorder source with
  | .error e => (.error e, disk)
  | .ok b =>
    match b.recorder with
    | none => (.ok { code := b.arena.code }, disk)
    | some r =>
      if r.lines.size != b.arena.code.size then
        (.error (.traceLength r.lines.size b.arena.code.size), disk)
      else match r.flush disk with
        | (.ok document, disk) => (.ok { code := b.arena.code, document := some document }, disk)
        | (.error e, disk) => (.error (.trace e), disk)

end Program

end Brainfuck
