import Brainfuck.Bytes

/-!
# Streams

What a running program reads from and writes to, seen from the program.

## Main Definitions

* `StreamError` — why a byte could not be read or written
* `Channel` — the reading and the writing end of a program, over a state of any type

## Design Notes

A channel does not own its streams: both ends act on a state `ω`, which a run threads through. The
same machine therefore runs on memory streams, on a console, and on either of them paired with
the log of an observer.
-/

namespace Brainfuck

/-- Why a byte could not be read or written. -/
inductive StreamError where
  /-- The input has no more bytes. -/
  | endOfInput
  /-- The device behind a reader failed with a message. -/
  | broken (message : Bytes)
  /-- A memory writer holds as many bytes as it can. -/
  | bufferFull
  /-- A console writer was closed before. -/
  | writerClosed
  /-- The sink behind a console takes no more bytes. -/
  | sinkFull
  deriving DecidableEq, Repr

namespace StreamError

/-- The message of a stream error. -/
def message : StreamError → Bytes
  | endOfInput => text "EOF"
  | broken m => m
  | bufferFull => text "memory writer: put: buffer full"
  | writerClosed => text "console writer: put: closed"
  | sinkFull => text "sink full"

end StreamError

/-- The two ends of a program's streams, as operations on a state. A failed operation also says
in which state it leaves the streams. -/
structure Channel (ω : Type) where
  get : ω → Except StreamError UInt8 × ω
  put : UInt8 → ω → Except StreamError Unit × ω

/-- The same streams, with a second component of the state left alone. -/
def Channel.beside {ω : Type} (channel : Channel ω) (σ : Type) : Channel (ω × σ) where
  get := fun (w, s) => let (r, w) := channel.get w; (r, w, s)
  put := fun b (w, s) => let (r, w) := channel.put b w; (r, w, s)

end Brainfuck
