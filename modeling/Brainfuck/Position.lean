import Brainfuck.Bytes

/-!
# Positions

Where a command stands in its source. Lines and columns count from one; columns count runes.

## Main Definitions

* `Position` — a line and a column
* `Position.implicit` — the position of a command that the source does not hold
-/

namespace Brainfuck

/-- A line and a column of a source. -/
structure Position where
  line : Int
  column : Int
  deriving DecidableEq, Repr

namespace Position

/-- The position of a command that no source holds. -/
def implicit : Position :=
  ⟨0, 0⟩

instance : Inhabited Position :=
  ⟨implicit⟩

/-- Whether a position refers to a source. -/
def isKnown (p : Position) : Bool :=
  0 < p.line

/-- A position as text: `line:column`, or `implicit`. -/
def toText (p : Position) : Bytes :=
  if p.isKnown then signed p.line ++ 0x3A :: signed p.column else text "implicit"

end Position

end Brainfuck
