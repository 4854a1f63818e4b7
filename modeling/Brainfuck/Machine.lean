import Brainfuck.Instruction
import Brainfuck.Fault
import Brainfuck.Stream

/-!
# Machines

A machine runs code on a tape of cells. The data pointer starts at the first cell and must stay on
the tape; cells are words of 32 bits that wrap around.

## Main Definitions

* `Machine` — the tape, the data pointer, the index of the next instruction and the streams
* `Machine.step` — the effect of one instruction
* `Machine.run` — a run to its end
* `Machine.watch` — a run that an observer sees before every instruction and can stop
* `execute`, `observe` — the same from the start of a program

## Design Notes

A run need not end, so it takes the number of instructions that it may execute: the result is
`none` if that number is too small. A larger number never changes a result.
-/

namespace Brainfuck

/-- A tape of cells. -/
abbrev Tape := Array Int32

/-- A tape of zeros. -/
def Tape.zero (size : Nat) : Tape :=
  Array.replicate size 0

/-- Why a run failed. The index is that of the instruction. -/
inductive RunError where
  /-- The data pointer left a tape of `size` cells. -/
  | outOfRange (pointer : Int) (size index : Nat)
  | output (index : Nat) (cause : StreamError)
  | input (index : Nat) (cause : StreamError)
  /-- A jump to an index below zero. -/
  | strayJump (target : Int)
  deriving DecidableEq, Repr

/-- The message of a run error. -/
def RunError.message : RunError → Bytes
  | outOfRange pointer size index =>
    text "data pointer " ++ signed pointer ++ text " out of range [0," ++ decimal size ++
      text ") at instruction " ++ decimal index
  | output index cause =>
    text "output at instruction " ++ decimal index ++ text ": " ++ cause.message
  | input index cause =>
    text "input at instruction " ++ decimal index ++ text ": " ++ cause.message
  | strayJump target => (Fault.index target 0).message

/-- A machine between two instructions. -/
structure Machine (ω : Type) where
  tape : Tape
  pointer : Nat
  /-- The index of the next instruction. -/
  counter : Nat
  /-- The streams. -/
  world : ω
  deriving DecidableEq, Repr

namespace Machine

variable {ω ε : Type}

/-- The machine before the first instruction. -/
def start (tape : Tape) (world : ω) : Machine ω :=
  { tape, pointer := 0, counter := 0, world }

/-- The current cell. -/
def cell (m : Machine ω) : Int32 :=
  m.tape.getD m.pointer 0

/-- The machine after an instruction that changed the data pointer. -/
def moveTo (m : Machine ω) (pointer : Nat) : Machine ω :=
  { m with pointer, counter := m.counter + 1 }

/-- The machine after an instruction that changed nothing else. -/
def advance (m : Machine ω) : Machine ω :=
  { m with counter := m.counter + 1 }

/-- The machine after an instruction that changed the current cell. -/
def update (m : Machine ω) (f : Int32 → Int32) : Machine ω :=
  match m with
  | { tape, pointer, counter, world } =>
    { tape := tape.modify pointer f, pointer, counter := counter + 1, world }

/-- The machine after a jump. -/
def jump (m : Machine ω) (target : Int) : Except RunError Unit × Machine ω :=
  match target with
  | .ofNat counter => (.ok (), { m with counter })
  | .negSucc _ => (.error (.strayJump target), m)

/-- Writes the low eight bits of the current cell. -/
def output (channel : Channel ω) (m : Machine ω) : Except RunError Unit × Machine ω :=
  let byte := m.cell.toUInt32.toUInt8
  match m with
  | { tape, pointer, counter, world } =>
    match channel.put byte world with
    | (.ok (), world) => (.ok (), { tape, pointer, counter := counter + 1, world })
    | (.error e, world) => (.error (.output counter e), { tape, pointer, counter, world })

/-- Reads a byte into the current cell. -/
def input (channel : Channel ω) (m : Machine ω) : Except RunError Unit × Machine ω :=
  match m with
  | { tape, pointer, counter, world } =>
    match channel.get world with
    | (.ok b, world) =>
      (.ok (), update { tape, pointer, counter, world } fun _ => b.toUInt32.toInt32)
    | (.error e, world) => (.error (.input counter e), { tape, pointer, counter, world })

/-- Executes one instruction. A failing instruction leaves the counter where it is. -/
def step (channel : Channel ω) (i : Instruction) (m : Machine ω) :
    Except RunError Unit × Machine ω :=
  match i.op with
  | none => (.ok (), m.advance)
  | some .moveForward =>
    if m.pointer + 1 < m.tape.size then (.ok (), m.moveTo (m.pointer + 1))
    else (.error (.outOfRange (m.pointer + 1) m.tape.size m.counter), m)
  | some .moveBackward =>
    match m.pointer with
    | pointer + 1 => (.ok (), m.moveTo pointer)
    | 0 => (.error (.outOfRange (-1) m.tape.size m.counter), m)
  | some .increment => (.ok (), m.update (· + 1))
  | some .decrement => (.ok (), m.update (· - 1))
  | some .output => m.output channel
  | some .input => m.input channel
  | some .loopStart => if m.cell = 0 then m.jump i.target else (.ok (), m.advance)
  | some .loopEnd => m.jump i.target

/-- Runs code until the counter leaves it or an instruction fails, within a number of
instructions. -/
def run (channel : Channel ω) (code : Code) (fuel : Nat) (m : Machine ω) :
    Option (Except RunError Unit × Machine ω) :=
  match code[m.counter]? with
  | none => some (.ok (), m)
  | some i =>
    match fuel with
    | 0 => none
    | fuel + 1 =>
      match m.step channel i with
      | (.ok (), m) => run channel code fuel m
      | (.error e, m) => some (.error e, m)

end Machine

/-- What an observer sees before an instruction. -/
structure Snapshot where
  /-- The index of the instruction. -/
  index : Int
  line : Int
  op : Option Command
  position : Position
  pointer : Int
  cell : Int32
  deriving DecidableEq, Repr

/-- What an observer decides. -/
inductive Signal (ε : Type) where
  | proceed
  /-- End the run without an error. -/
  | halt
  /-- End the run with an error. -/
  | fail (cause : ε)
  deriving DecidableEq, Repr

/-- How an observed run ended. -/
inductive Ending (ε : Type) where
  | finished
  | halted
  | interrupted (cause : ε)
  | failed (cause : RunError)
  deriving DecidableEq, Repr

/-- An observer: it sees a snapshot and may change the state of the streams. -/
abbrev Observer (ω ε : Type) := Snapshot → ω → Signal ε × ω

namespace Machine

variable {ω ε : Type}

/-- What an observer sees of a machine before an instruction. -/
def snapshot (m : Machine ω) (i : Instruction) : Snapshot :=
  { index := m.counter, line := i.line, op := i.op, position := i.position,
    pointer := m.pointer, cell := m.cell }

/-- Runs code like `run`, showing every instruction to an observer first. -/
def watch (channel : Channel ω) (observer : Observer ω ε) (code : Code) (fuel : Nat)
    (m : Machine ω) : Option (Ending ε × Machine ω) :=
  match code[m.counter]? with
  | none => some (.finished, m)
  | some i =>
    match fuel with
    | 0 => none
    | fuel + 1 =>
      let seen := m.snapshot i
      match m with
      | { tape, pointer, counter, world } =>
        match observer seen world with
        | (.halt, world) => some (.halted, { tape, pointer, counter, world })
        | (.fail cause, world) => some (.interrupted cause, { tape, pointer, counter, world })
        | (.proceed, world) =>
          match step channel i { tape, pointer, counter, world } with
          | (.ok (), m) => watch channel observer code fuel m
          | (.error e, m) => some (.failed e, m)

end Machine

/-- Whether a tape has no cell for a program that needs one. -/
def lacksCells (code : Code) (tape : Tape) : Bool :=
  !code.isEmpty && tape.isEmpty

/-- The error of a program on a tape without cells. -/
def noCells : RunError :=
  .outOfRange 0 0 0

/-- Runs a program from its start. The cells of the tape are not cleared. -/
def execute {ω : Type} (channel : Channel ω) (code : Code) (fuel : Nat) (tape : Tape) (world : ω) :
    Option (Except RunError Unit × Machine ω) :=
  if lacksCells code tape then some (.error noCells, Machine.start tape world)
  else (Machine.start tape world).run channel code fuel

/-- Runs a program from its start like `execute`, under the eyes of an observer. -/
def observe {ω ε : Type} (channel : Channel ω) (observer : Observer ω ε) (code : Code) (fuel : Nat)
    (tape : Tape) (world : ω) : Option (Ending ε × Machine ω) :=
  if lacksCells code tape then some (.failed noCells, Machine.start tape world)
  else (Machine.start tape world).watch channel observer code fuel

end Brainfuck
