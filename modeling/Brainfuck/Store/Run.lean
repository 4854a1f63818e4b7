import Brainfuck.Bytes
import Brainfuck.Time.Timestamp

/-!
# Runs

The record of a benchmark.

## Main Definitions

* `Run` — how often a program ran, how long it took and how much it wrote
* `Run.perIteration` — the time of one iteration
-/

namespace Brainfuck

/-- A recorded benchmark. -/
structure Run where
  name : Bytes
  iterations : Int64
  /-- Nanoseconds over all iterations. -/
  elapsed : Int64
  /-- Bytes written by one iteration. -/
  output : Int64
  time : Timestamp
  deriving DecidableEq, Repr

namespace Run

/-- Nanoseconds for one iteration, rounded toward zero, and zero without iterations. -/
def perIteration (r : Run) : Int64 :=
  r.elapsed / r.iterations

/-- The run with its time filled in if it has none. -/
def stamped (r : Run) (now : Timestamp) : Run :=
  if r.time.isZero then { r with time := now } else r

end Run

/-- The first `limit` elements, or all if the limit is not positive. -/
def limited {α : Type} (limit : Int) (xs : List α) : List α :=
  if 0 < limit then xs.take limit.toNat else xs

end Brainfuck
