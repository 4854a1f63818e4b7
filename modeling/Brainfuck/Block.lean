import Brainfuck.Fault
import Brainfuck.Instruction

/-!
# Blocks

The code of nested scopes is built in an arena. Every block emits into the one code array of the
arena, so a block is the stretch of that array from its start. Blocks are addressed by handles,
and a block knows the handle of its parent.

## Main Definitions

* `Block` — one scope
* `Arena` — all blocks of a compilation and their code
* `Arena.openBlock`, `Arena.append`, `Arena.complete` — the calls that build code

## Design Notes

A call on a block other than the innermost open one is a fault, and a fault leaves the arena as it
was: the calls return the new arena only on success.
-/

namespace Brainfuck

/-- A block of an arena. The handle of a block is its index. -/
abbrev Handle := Int

/-- The parent of a block that is inside no other. -/
def Handle.none : Handle :=
  -1

/-- One scope. -/
structure Block where
  parent : Handle
  loop : Bool
  /-- The position of the bracket that opened a loop. -/
  opened : Position
  /-- The index of the first instruction. -/
  start : Nat
  complete : Bool := false
  deriving DecidableEq, Repr

/-- The blocks of a compilation and the code that they emit. -/
structure Arena where
  blocks : Array Block := #[]
  code : Code := #[]
  /-- The innermost block that is not complete. -/
  innermost : Handle := Handle.none
  deriving DecidableEq, Repr

namespace Arena

/-- An arena without blocks. -/
def empty : Arena :=
  {}

/-- The block with a handle. -/
def get (a : Arena) (h : Handle) : Except Fault Block :=
  if 0 ≤ h then
    match a.blocks[h.toNat]? with
    | some b => .ok b
    | none => .error (.index h a.blocks.size)
  else .error (.index h a.blocks.size)

/-- The block with a handle, which must be the innermost open one. -/
def getInnermost (a : Arena) (action : BlockAction) (h : Handle) : Except Fault Block := do
  let b ← a.get h
  if b.complete then .error (.blockComplete action h)
  else if h = a.innermost then .ok b
  else .error (.blockNotInnermost action h a.innermost)

/-- Opens a block inside the innermost open one. A loop starts with its guard, whose target is
not known yet; for other blocks the guard is ignored. -/
def openBlock (a : Arena) (parent : Handle) (loop : Bool) (guard : Instruction) :
    Except Fault (Handle × Arena) :=
  match a with
  | { blocks, code, innermost } =>
    if parent = innermost then
      let handle : Handle := blocks.size
      let start := code.size
      if loop then
        let block := { parent, loop, opened := guard.position, start : Block }
        let guard := { guard with op := some Command.loopStart, target := 0 }
        .ok (handle, { blocks := blocks.push block, code := code.push guard, innermost := handle })
      else
        let block := { parent, loop, opened := Position.implicit, start : Block }
        .ok (handle, { blocks := blocks.push block, code, innermost := handle })
    else .error (.openInside parent innermost)

/-- Adds an instruction to the innermost open block. -/
def append (a : Arena) (h : Handle) (i : Instruction) : Except Fault Arena :=
  match a.getInnermost .append h with
  | .error f => .error f
  | .ok _ =>
    match a with
    | { blocks, code, innermost } => .ok { blocks, code := code.push i, innermost }

/-- Completes the innermost open block. A loop ends with its exit, which jumps back to the guard;
the guard gets the index after the exit as its target. For other blocks the exit is ignored. -/
def complete (a : Arena) (h : Handle) (exit : Instruction) : Except Fault Arena :=
  match a.getInnermost .complete h with
  | .error f => .error f
  | .ok b =>
    match a with
    | { blocks, code, .. } =>
      let blocks := blocks.setIfInBounds h.toNat { b with complete := true }
      if b.loop then
        let code := code.push { exit with op := some Command.loopEnd, target := b.start }
        let target : Int := code.size
        let code := code.modify b.start fun guard => { guard with target }
        .ok { blocks, code, innermost := b.parent }
      else .ok { blocks, code, innermost := b.parent }

/-- The code of a block, from its start to the end of all code. -/
def codeFrom (a : Arena) (start : Nat) : Code :=
  a.code.extract start a.code.size

end Arena

end Brainfuck
