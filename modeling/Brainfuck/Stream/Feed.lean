import Brainfuck.Stream

/-!
# Feeds

A feed is a supply of bytes that ends or fails after its last byte: a source text, the standard
input, a script, the keys of a terminal.

## Main Definitions

* `Feed` — the bytes still to come and how the supply stops
* `Feed.next` — takes one byte
* `Feed.line` — takes the bytes up to a line feed
* `Feed.extended` — a feed with more bytes behind its own
-/

namespace Brainfuck

/-- A supply of bytes. After the last byte every read meets the end of input or, if `failure` is
given, fails with that message. -/
structure Feed where
  bytes : Bytes
  failure : Option Bytes := none
  deriving DecidableEq, Repr

namespace Feed

/-- A feed with no bytes. -/
def empty : Feed :=
  { bytes := [] }

/-- What a read after the last byte meets. -/
def stop (f : Feed) : StreamError :=
  match f.failure with
  | none => .endOfInput
  | some m => .broken m

/-- Takes one byte. -/
def next (f : Feed) : Except StreamError UInt8 × Feed :=
  match f.bytes with
  | [] => (.error f.stop, f)
  | b :: rest => (.ok b, { f with bytes := rest })

/-- Takes the bytes up to and including the first line feed. Without a line feed it takes all
bytes, and the second component says why it stopped. -/
def line (f : Feed) : Bytes × Option StreamError × Feed :=
  let front := f.bytes.takeWhile (· != 0x0A)
  match f.bytes.drop front.length with
  | [] => (front, some f.stop, { f with bytes := [] })
  | lf :: rest => (front ++ [lf], none, { f with bytes := rest })

/-- A feed with more bytes behind its own. -/
def extended (f : Feed) (more : Bytes) : Feed :=
  { f with bytes := f.bytes ++ more }

end Feed

end Brainfuck
