import Brainfuck.Fault
import Brainfuck.Stream

/-!
# Memory streams

Streams that live in memory: a reader over a fixed text and a writer of bounded capacity.

## Main Definitions

* `MemoryReader`, `MemoryReader.get`, `MemoryReader.rewind` — the reader
* `MemoryWriter`, `MemoryWriter.put`, `MemoryWriter.reset` — the writer
* `MemoryStreams.channel` — both as the ends of a program
-/

namespace Brainfuck

/-- A reader over a text. -/
structure MemoryReader where
  text : Array UInt8
  /-- The number of bytes read. -/
  position : Nat := 0
  deriving DecidableEq, Repr

namespace MemoryReader

/-- A reader at the start of a text. -/
def ofBytes (t : Bytes) : MemoryReader :=
  { text := t.toArray }

/-- Reads a byte. -/
def get (r : MemoryReader) : Except StreamError UInt8 × MemoryReader :=
  match r.text[r.position]? with
  | some b => (.ok b, { r with position := r.position + 1 })
  | none => (.error .endOfInput, r)

/-- Goes back to the start of the text. -/
def rewind (r : MemoryReader) : MemoryReader :=
  { r with position := 0 }

end MemoryReader

/-- The greatest number of bytes that memory can hold. -/
def maxBytes : Nat :=
  Nat.pow 2 48

/-- A number of elements of a size for which memory can be had. -/
def checkLength (size : Nat) (n : Int) : Except Fault Nat :=
  if 0 ≤ n && size * n ≤ maxBytes then .ok n.toNat else .error .length

/-- A writer that holds up to `capacity` bytes. -/
structure MemoryWriter where
  capacity : Nat
  content : Array UInt8 := #[]
  deriving DecidableEq, Repr

namespace MemoryWriter

/-- A writer without content. -/
def ofCapacity (n : Int) : Except Fault MemoryWriter := do
  let capacity ← checkLength 1 n
  .ok { capacity }

/-- Writes a byte, unless the writer is full. -/
def put (w : MemoryWriter) (b : UInt8) : Except StreamError Unit × MemoryWriter :=
  match w with
  | { capacity, content } =>
    if content.size < capacity then (.ok (), { capacity, content := content.push b })
    else (.error .bufferFull, { capacity, content })

/-- Drops the content. -/
def reset (w : MemoryWriter) : MemoryWriter :=
  { w with content := #[] }

end MemoryWriter

/-- A reader and a writer in memory. -/
structure MemoryStreams where
  reader : MemoryReader
  writer : MemoryWriter
  deriving DecidableEq, Repr

/-- Memory streams as the ends of a program. -/
def MemoryStreams.channel : Channel MemoryStreams where
  get := fun { reader, writer } =>
    let (r, reader) := reader.get
    (r, { reader, writer })
  put := fun b { reader, writer } =>
    let (r, writer) := writer.put b
    (r, { reader, writer })

end Brainfuck
