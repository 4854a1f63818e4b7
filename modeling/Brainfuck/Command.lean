import Brainfuck.Bytes

/-!
# Commands

The eight commands of the language. Every other byte of a source is a comment.

## Main Definitions

* `Command` — a command
* `Command.ofByte?` — the command that a byte stands for
* `Command.name` — the name under which listings and traces show a command
-/

namespace Brainfuck

/-- A command of the language. -/
inductive Command where
  /-- Move the data pointer one cell forward. -/
  | moveForward
  /-- Move the data pointer one cell back. -/
  | moveBackward
  /-- Add one to the current cell. -/
  | increment
  /-- Subtract one from the current cell. -/
  | decrement
  /-- Write the current cell as a byte. -/
  | output
  /-- Read a byte into the current cell. -/
  | input
  /-- Enter a loop while the current cell is not zero. -/
  | loopStart
  /-- Go back to the start of the loop. -/
  | loopEnd
  deriving DecidableEq, Repr

namespace Command

/-- The byte that stands for a command. -/
def symbol : Command → UInt8
  | moveForward => 0x3E
  | moveBackward => 0x3C
  | increment => 0x2B
  | decrement => 0x2D
  | output => 0x2E
  | input => 0x2C
  | loopStart => 0x5B
  | loopEnd => 0x5D

/-- The command that a byte stands for, if any. -/
def ofByte? (b : UInt8) : Option Command :=
  if b = 0x3E then some moveForward
  else if b = 0x3C then some moveBackward
  else if b = 0x2B then some increment
  else if b = 0x2D then some decrement
  else if b = 0x2E then some output
  else if b = 0x2C then some input
  else if b = 0x5B then some loopStart
  else if b = 0x5D then some loopEnd
  else none

/-- The command that a code point stands for, if any. -/
def ofCode? (code : Int) : Option Command :=
  if 0 ≤ code && code < 0x80 then ofByte? code.toNat.toUInt8 else none

/-- The number of a command, counted from one. -/
def number : Command → Nat
  | moveForward => 1
  | moveBackward => 2
  | increment => 3
  | decrement => 4
  | output => 5
  | input => 6
  | loopStart => 7
  | loopEnd => 8

/-- The command with a number, if any. -/
def ofNumber? : Int → Option Command
  | 1 => some moveForward
  | 2 => some moveBackward
  | 3 => some increment
  | 4 => some decrement
  | 5 => some output
  | 6 => some input
  | 7 => some loopStart
  | 8 => some loopEnd
  | _ => none

/-- The name of a command. -/
def name : Command → String
  | moveForward => "MoveForward"
  | moveBackward => "MoveBackward"
  | increment => "IncCell"
  | decrement => "DecCell"
  | output => "Output"
  | input => "Input"
  | loopStart => "LoopStart"
  | loopEnd => "LoopEnd"

/-- Whether a command may transfer control. -/
def isJump : Command → Bool
  | loopStart | loopEnd => true
  | _ => false

@[simp] theorem ofByte?_symbol (c : Command) : ofByte? c.symbol = some c := by
  cases c <;> rfl

theorem symbol_of_ofByte? {b : UInt8} {c : Command} (h : ofByte? b = some c) : c.symbol = b := by
  unfold ofByte? at h
  repeat' split at h
  all_goals simp_all [symbol] <;> (subst h; rfl)

@[simp] theorem ofNumber?_number (c : Command) : ofNumber? c.number = some c := by
  cases c <;> rfl

end Command

/-- The name of an operation that may be void. -/
def operationName (op : Option Command) : String :=
  op.elim "Invalid" Command.name

end Brainfuck
