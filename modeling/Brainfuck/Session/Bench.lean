import Brainfuck.Session

/-!
# Benchmarks

A benchmark runs a program many times on a tape of zeros and an empty input, and records how long
that took.

## Main Definitions

* `iterate` — the runs of a benchmark
* `Session.bench` — a benchmark that is recorded

## Design Notes

All iterations share one tape and one pair of streams, which are cleared after each of them. The
output of every iteration is compared with that of the first.
-/

namespace Brainfuck

/-- What the first iteration starts with. -/
def freshStreams (capacity : Nat) : MemoryStreams :=
  { reader := MemoryReader.ofBytes [], writer := { capacity } }

/-- What an iteration leaves for the next one. -/
def MemoryStreams.cleared (s : MemoryStreams) : MemoryStreams :=
  { reader := s.reader.rewind, writer := s.writer.reset }

/-- Runs code `remaining` times, counting iterations from `index`, and gives the output of the
first one. -/
def iterate (code : Code) (fuel : Nat) (first : Option (Array UInt8)) (index : Nat) (tape : Tape)
    (streams : MemoryStreams) : Nat → Option (Except BenchError (Array UInt8))
  | 0 => some (.ok (first.getD #[]))
  | remaining + 1 =>
    match execute MemoryStreams.channel code fuel tape streams with
    | none => none
    | some (.error e, _) => some (.error (.run index e))
    | some (.ok (), m) =>
      let output := m.world.writer.content
      if first.all (· == output) then
        iterate code fuel (some (first.getD output)) (index + 1) (Tape.zero m.tape.size)
          m.world.cleared remaining
      else some (.error (.output index))

namespace Session

/-- Adds a run to the store, if there is one. -/
def recordRun (s : Session) (run : Run) : Except StoreError Unit × Session :=
  match s.store with
  | .present store =>
    s.changeStore store fun store disk => store.record disk run s.host.now
  | _ => (.ok (), s)

/-- Runs a source a number of times with room for `capacity` bytes of output, and records the
benchmark under a name. -/
def bench (s : Session) (fuel : Nat) (name source : Bytes) (iterations capacity : Int) :
    Option (Except SessionError Run × Session) :=
  if iterations ≤ 0 then some (.error (.bench name .noIterations), s)
  else match s.compile source with
    | (.error e, s) => some (.error (.compile e), s)
    | (.ok p, s) =>
      match checkLength 1 capacity with
      | .error f => some (.error (.fault f), s)
      | .ok capacity =>
        match iterate p.code fuel none 0 (Tape.zero s.tape.size) (freshStreams capacity)
          iterations.toNat with
        | none => none
        | some (.error e) => some (.error (.bench name e), s)
        | some (.ok output) =>
          let run : Run :=
            { name, iterations := Int64.ofInt iterations, elapsed := s.host.elapsed,
              output := Int64.ofNat output.size, time := s.host.now }
          match s.recordRun run with
          | (.ok (), s) => some (.ok run, s)
          | (.error e, s) => some (.error (.bench name (.record e)), s)

end Session

end Brainfuck
