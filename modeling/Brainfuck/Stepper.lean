import Brainfuck.Session

/-!
# Stepper

A stepper shows every instruction of a run before it is executed and lets single keys decide how
to go on.

## Main Definitions

* `stepText` — the text of an instruction
* `Stepper` — the keys to come and the text shown so far
* `Stepper.step` — the effect of one instruction
* `Stepper.run` — a stepped run
-/

namespace Brainfuck

/-- The text of an instruction that is about to be executed. An instruction without a trace line
shows its number. Either is shown as a word of 64 bits. -/
def stepText (seen : Snapshot) : Bytes :=
  let line := Int64.ofInt (if seen.line = 0 then seen.index + 1 else seen.line)
  padLeft 5 0x20 (signed line.toInt) ++ text "  " ++ padRight 12 (text (operationName seen.op)) ++
    text " " ++ padRight 8 seen.position.toText ++ text " ptr=" ++
    padRight 6 (signed seen.pointer) ++ text " cell=" ++ signed seen.cell.toInt

/-- What a key asks for. -/
inductive KeyMeaning where
  | step
  | resume
  | quit
  deriving DecidableEq, Repr

/-- The meaning of a key, if it has one. -/
def KeyMeaning.ofKey? (key : UInt8) : Option KeyMeaning :=
  if key = 0x73 || key = 0x0D || key = 0x0A || key = 0x20 then some .step
  else if key = 0x63 then some .resume
  else if key = 0x71 || key = 0x03 then some .quit
  else none

/-- A stepper between two instructions. -/
structure Stepper where
  /-- The keys to come, if there are any to wait for. -/
  keys : Option Feed := none
  /-- Whether to go on without asking. -/
  resume : Bool := false
  /-- The text shown so far. -/
  shown : Sink := {}
  deriving DecidableEq, Repr

namespace Stepper

/-- The text that asks for a key. -/
def question : Bytes :=
  text "[s]tep [c]ontinue [q]uit> "

/-- Asks for keys until one has a meaning. The end of the keys stands for going on without
asking. -/
def ask (failure : Option Bytes) (shown : Sink) :
    Bytes → Signal SessionError × Stepper
  | [] =>
    let keys := some { bytes := [], failure }
    let shown := shown.print (question ++ [0x0A])
    match failure with
    | none => (.proceed, { keys, resume := true, shown })
    | some m => (.fail (.observer m), { keys, shown })
  | key :: rest =>
    let keys := some { bytes := rest, failure }
    let shown := shown.print (question ++ [0x0A])
    match KeyMeaning.ofKey? key with
    | some .step => (.proceed, { keys, shown })
    | some .resume => (.proceed, { keys, resume := true, shown })
    | some .quit => (.halt, { keys, shown })
    | none => ask failure shown rest

/-- Shows an instruction and asks how to go on. -/
def step : Session.Watcher Stepper :=
  fun seen _ { keys, resume, shown } =>
    let shown := shown.print (stepText seen ++ [0x0A])
    match keys, resume with
    | some feed, false => ask feed.failure shown feed.bytes
    | keys, resume => (.proceed, { keys, resume, shown })

/-- Runs code step by step. -/
def run (stepper : Stepper) (s : Session) (fuel : Nat) (code : Code) :
    Option (Except SessionError Unit × Session × Stepper) :=
  s.watch fuel code step stepper

end Stepper

end Brainfuck
