import Brainfuck.Fault
import Brainfuck.Stream.Feed

/-!
# Consoles

A console joins a feed to a writer that collects bytes in a buffer and delivers them to a sink. A
read delivers the buffer first, so that a prompt is seen before its answer is awaited.

## Main Definitions

* `Sink` — where bytes arrive, up to a limit
* `ConsoleWriter` — the buffer before a sink
* `Console` — a feed, a writer and a sink
* `Console.put`, `Console.flush`, `Console.get`, `Console.close` — the steps of a console
* `Console.channel` — a console as the ends of a program
* `Console.fed`, `Console.extended` — a console with another input, and with more of it
* `Console.ofSides` — a console for which a side may be left out
* `ConsolePair` — a reader and a writer, either of which may be missing

## Design Notes

A failed delivery is final: the writer keeps the error and the sink gets nothing more from it. A
muted writer delivers to nowhere and never fails. A pair whose sides are both there is a console;
without a writer, a read has nothing to deliver.
-/

namespace Brainfuck

/-- Where bytes arrive. With a limit, it takes that many bytes in all. -/
structure Sink where
  limit : Option Nat := none
  received : Array UInt8 := #[]
  deriving DecidableEq, Repr

namespace Sink

/-- How many of `n` further bytes fit. -/
def room (s : Sink) (n : Nat) : Nat :=
  match s.limit with
  | none => n
  | some limit => min n (limit - s.received.size)

/-- Takes the bytes that fit and says how many did. -/
def write (s : Sink) (bytes : Array UInt8) : Nat × Sink :=
  let taken := s.room bytes.size
  match s with
  | { limit, received } =>
    (taken, { limit, received := received ++ bytes.extract 0 taken })

/-- Takes as much of a text as fits. -/
def print (s : Sink) (t : Bytes) : Sink :=
  (s.write t.toArray).2

end Sink

/-- The number of bytes that a console writer collects. -/
def bufferSize : Nat :=
  4096

/-- The buffer before a sink. -/
structure ConsoleWriter where
  pending : Array UInt8 := #[]
  /-- The error of the first delivery that failed. -/
  failure : Option StreamError := none
  closed : Bool := false
  /-- Whether the bytes are dropped instead of delivered. -/
  muted : Bool := false
  deriving DecidableEq, Repr

/-- A feed, a writer and the sink behind it. -/
structure Console where
  feed : Feed
  writer : ConsoleWriter := {}
  sink : Sink := {}
  deriving DecidableEq, Repr

namespace Console

/-- Delivers the buffer to the sink. An empty buffer leaves the sink alone. -/
def flush (c : Console) : Except StreamError Unit × Console :=
  match c with
  | { feed, writer := { pending, failure, closed, muted }, sink } =>
    match failure with
    | some e => (.error e, { feed, writer := { pending, failure, closed, muted }, sink })
    | none =>
      if pending.isEmpty then
        (.ok (), { feed, writer := { pending, failure, closed, muted }, sink })
      else if muted then
        (.ok (), { feed, writer := { pending := #[], failure, closed, muted }, sink })
      else
        let (taken, sink) := sink.write pending
        if taken = pending.size then
          (.ok (), { feed, writer := { pending := #[], failure, closed, muted }, sink })
        else
          let pending := pending.extract taken pending.size
          (.error .sinkFull,
            { feed, writer := { pending, failure := some .sinkFull, closed, muted }, sink })

/-- Adds a byte to the buffer. -/
def push (c : Console) (b : UInt8) : Console :=
  match c with
  | { feed, writer := { pending, failure, closed, muted }, sink } =>
    { feed, writer := { pending := pending.push b, failure, closed, muted }, sink }

/-- Writes a byte. A full buffer is delivered first. -/
def put (c : Console) (b : UInt8) : Except StreamError Unit × Console :=
  if c.writer.closed then (.error .writerClosed, c)
  else match c.writer.failure with
    | some e => (.error e, c)
    | none =>
      if c.writer.pending.size < bufferSize then (.ok (), c.push b)
      else match c.flush with
        | (.ok (), c) => (.ok (), c.push b)
        | (.error e, c) => (.error e, c)

/-- Reads a byte. An open writer delivers its buffer first, and if that fails no byte is read. -/
def get (c : Console) : Except StreamError UInt8 × Console :=
  let (flushed, c) := if c.writer.closed then (.ok (), c) else c.flush
  match flushed with
  | .error e => (.error e, c)
  | .ok () =>
    match c with
    | { feed, writer, sink } =>
      let (r, feed) := feed.next
      (r, { feed, writer, sink })

/-- Delivers the buffer and takes no more bytes. A second close does nothing. -/
def close (c : Console) : Except StreamError Unit × Console :=
  if c.writer.closed then (.ok (), c)
  else
    match c with
    | { feed, writer := { pending, failure, muted, .. }, sink } =>
      flush { feed, writer := { pending, failure, closed := true, muted }, sink }

/-- A console as the ends of a program. -/
def channel : Channel Console where
  get := get
  put := fun b c => c.put b

/-- A console with another input. -/
def fed (c : Console) (feed : Feed) : Console :=
  { c with feed }

/-- A console with more bytes behind its input. -/
def extended (c : Console) (more : Bytes) : Console :=
  c.fed (c.feed.extended more)

/-- A console for which a side may be left out: the input then ends at once, and the output is
dropped. -/
def ofSides (input : Option Feed) (output : Option Sink) : Console where
  feed := input.getD .empty
  writer := { muted := output.isNone }
  sink := output.getD {}

end Console

/-- A reader and a writer with the sink behind it, either of which may be missing. -/
structure ConsolePair where
  reader : Option Feed
  writer : Option (ConsoleWriter × Sink)
  deriving DecidableEq, Repr

namespace ConsolePair

/-- A pair before its first call. -/
def ofSides (input : Option Feed) (output : Option Sink) : ConsolePair where
  reader := input
  writer := output.map ({}, ·)

/-- Reads a byte, after the writer has delivered its buffer if there is one. -/
def get (p : ConsolePair) : Except Fault (Except StreamError UInt8 × ConsolePair) :=
  match p with
  | { reader := none, .. } => .error .missing
  | { reader := some feed, writer := none } =>
    let (r, feed) := feed.next
    .ok (r, { reader := some feed, writer := none })
  | { reader := some feed, writer := some (writer, sink) } =>
    let (r, c) := Console.get { feed, writer, sink }
    .ok (r, { reader := some c.feed, writer := some (c.writer, c.sink) })

/-- A step of the writer. -/
def onWriter (p : ConsolePair) (step : Console → Except StreamError Unit × Console) :
    Except Fault (Except StreamError Unit × ConsolePair) :=
  match p with
  | { writer := none, .. } => .error .missing
  | { reader, writer := some (writer, sink) } =>
    let (r, c) := step { feed := .empty, writer, sink }
    .ok (r, { reader, writer := some (c.writer, c.sink) })

/-- Writes a byte. -/
def put (p : ConsolePair) (b : UInt8) : Except Fault (Except StreamError Unit × ConsolePair) :=
  p.onWriter (·.put b)

/-- Delivers the buffer. -/
def flush (p : ConsolePair) : Except Fault (Except StreamError Unit × ConsolePair) :=
  p.onWriter Console.flush

/-- Delivers the buffer and takes no more bytes. -/
def close (p : ConsolePair) : Except Fault (Except StreamError Unit × ConsolePair) :=
  p.onWriter Console.close

end ConsolePair

end Brainfuck
