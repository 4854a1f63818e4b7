import Brainfuck.Store.Run
import Brainfuck.Text.Quantity
import Brainfuck.Time.Age
import Brainfuck.Time.Duration

/-!
# Reports

The report of a benchmark.

## Main Definitions

* `benchReport` — a benchmark and the ones before it as text
* `historyLength` — how many recorded runs a report looks at
-/

namespace Brainfuck

/-- How many recorded runs a report looks at. The newest is the one reported. -/
def historyLength : Int :=
  6

/-- The line of an earlier run. -/
def previousLine (now : Timestamp) (run : Run) : Bytes :=
  text "    " ++ durationText run.perIteration.toInt ++ text " per iteration (" ++
    ageText (now.instant - run.time.instant) ++ text ")\n"

/-- The lines of the runs before the newest one, if there are any. -/
def previousLines (now : Timestamp) (history : List Run) : Bytes :=
  match history with
  | _ :: previous@(_ :: _) => text "  previous:\n" ++ previous.flatMap (previousLine now)
  | _ => []

/-- A benchmark and the recorded runs of the same program, newest first, as text. -/
def benchReport (now : Timestamp) (run : Run) (history : List Run) : Bytes :=
  run.name ++ text ": " ++ grouped run.iterations.toInt ++ text " iterations, " ++
    byteSize run.output.toUInt64 ++ text " of output each\n  total " ++
    durationText run.elapsed.toInt ++ text ", " ++ durationText run.perIteration.toInt ++
    text " per iteration\n" ++ previousLines now history

end Brainfuck
