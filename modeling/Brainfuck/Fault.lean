import Brainfuck.Bytes

/-!
# Faults

A fault ends a call that was made out of order or with an argument that no caller may give. It is
not an error of a program or its input.

## Main Definitions

* `Fault` — what the caller did
* `Fault.message` — the message that names it
-/

namespace Brainfuck

/-- What a call on a block was meant to do. -/
inductive BlockAction where
  | append
  | complete
  deriving DecidableEq, Repr

/-- A call that no caller may make. -/
inductive Fault where
  /-- An index outside a sequence of `size` elements. -/
  | index (index : Int) (size : Nat)
  /-- A buffer of negative or impossible length. -/
  | length
  /-- A block opened inside `parent` while `innermost` is the innermost open block. -/
  | openInside (parent innermost : Int)
  /-- A call on a block that is complete. -/
  | blockComplete (action : BlockAction) (block : Int)
  /-- A call on a block other than the innermost open one. -/
  | blockNotInnermost (action : BlockAction) (block innermost : Int)
  /-- A call on something that is not there. -/
  | missing
  deriving DecidableEq, Repr

/-- The words for an action in a message. -/
def BlockAction.words : BlockAction → Bytes
  | append => text "append to"
  | complete => text "complete"

/-- The message of a fault. An index below zero is named without the size. -/
def Fault.message : Fault → Bytes
  | index i size =>
    text "runtime error: index out of range [" ++ signed i ++ text "]" ++
      if i < 0 then [] else text " with length " ++ decimal size
  | length => text "runtime error: makeslice: len out of range"
  | openInside parent innermost =>
    text "block: open inside " ++ signed parent ++ text ", innermost open block is " ++
      signed innermost
  | blockComplete action block =>
    text "block: " ++ action.words ++ text " completed block " ++ signed block
  | blockNotInnermost action block innermost =>
    text "block: " ++ action.words ++ text " block " ++ signed block ++
      text ", innermost open block is " ++ signed innermost
  | missing => text "runtime error: invalid memory address or nil pointer dereference"

end Brainfuck
