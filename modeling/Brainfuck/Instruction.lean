import Brainfuck.Command
import Brainfuck.Position

/-!
# Instructions

Executable code is a flat array of instructions. A loop is a guard and an exit that name each
other's index.

## Main Definitions

* `Instruction` — an operation with its jump target, trace line and position
* `listing` — code as text, one line for each instruction
-/

namespace Brainfuck

/-- One instruction. The operation `none` does nothing. -/
structure Instruction where
  op : Option Command := none
  /-- Where a loop guard jumps to on zero, and where a loop exit jumps back to. -/
  target : Int := 0
  /-- The line of the trace that describes the instruction, zero without a trace. -/
  line : Int := 0
  position : Position := Position.implicit
  deriving DecidableEq, Repr, Inhabited

/-- Code: instructions addressed by index. -/
abbrev Code := Array Instruction

namespace Instruction

/-- The name of the operation. -/
def name (i : Instruction) : Bytes :=
  text (operationName i.op)

/-- Whether the operation may transfer control. -/
def isJump (i : Instruction) : Bool :=
  i.op.any Command.isJump

/-- The symbol of the operation, zero for one that does nothing. -/
def symbol (i : Instruction) : UInt8 :=
  i.op.elim 0 Command.symbol

/-- An instruction as text: its name and, for a jump, its target. -/
def toText (i : Instruction) : Bytes :=
  if i.isJump then padRight 12 i.name ++ text " -> " ++ signed i.target else i.name

/-- The line of a listing for the instruction at an index. -/
def listingLine (index : Nat) (i : Instruction) : Bytes :=
  paddedDecimal 4 index ++ text "  " ++ i.symbol :: text "  " ++ i.toText ++ [0x0A]

end Instruction

/-- Code as text, one line for each instruction, with its index and its symbol. -/
def listing (code : Code) : Bytes :=
  code.toList.zipIdx.flatMap fun (i, index) => i.listingLine index

end Brainfuck
