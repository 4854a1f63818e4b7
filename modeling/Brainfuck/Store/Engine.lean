import Brainfuck.Text.Numeral
import Brainfuck.Text.Path

/-!
# Database engines

A database is opened by a name. What the name stands for is up to the database engine: a file that
it may write, a file that it may only read, or a database that is on no disk.

## Main Definitions

* `Target` — what a name stands for
* `Engine` — a database engine, which gives names their meaning
* `Engine.standard` — the engine for plain paths and for file URIs

## Design Notes

Whatever opens a database takes the engine as an argument, so that nothing about names is taken for
granted. Of a file that the engine may write it is assumed that every statement is carried out; this
is the only place where permissions enter.
-/

namespace Brainfuck

/-- What an engine may do with the file of a database. -/
inductive Access where
  | readWrite
  | readOnly
  deriving DecidableEq, Repr

/-- What the name of a database stands for. -/
inductive Target where
  /-- A database of its own, which is gone when it is closed. -/
  | scratch
  /-- The database in the file at a path. -/
  | file (path : Bytes) (access : Access)
  /-- Nothing: the engine does not understand the name. -/
  | refused
  deriving DecidableEq, Repr

/-- A database engine. -/
structure Engine where
  /-- What a name stands for. -/
  resolve : Bytes → Target

namespace Engine

/-- What a path stands for. Some names that look like paths are on no disk. -/
def target (path : Bytes) (access : Access) : Target :=
  if path.isEmpty || path == text ":memory:" then .scratch else .file path access

/-- The text before the first occurrence of a byte, and the text behind it. -/
def cutAt (b : UInt8) (t : Bytes) : Bytes × Bytes :=
  let front := t.takeWhile (· != b)
  (front, t.drop (front.length + 1))

/-- A text with every percent sign and the two hexadecimal digits behind it replaced by the byte
that they stand for. -/
def unescape : Bytes → Bytes
  | 0x25 :: a :: b :: rest =>
    match Numeral.digit? 16 a, Numeral.digit? 16 b with
    | some high, some low => UInt8.ofNat (16 * high + low) :: unescape rest
    | _, _ => 0x25 :: unescape (a :: b :: rest)
  | b :: rest => b :: unescape rest
  | [] => []

/-- The path in a URI behind its authority, which can only be this machine. -/
def uriPath? (t : Bytes) : Option Bytes :=
  match t with
  | 0x2F :: 0x2F :: rest =>
    let authority := rest.takeWhile (· != Path.slash)
    if authority.isEmpty || authority == text "localhost" then some (rest.drop authority.length)
    else none
  | _ => some t

/-- What a file URI stands for, without its scheme. The last parameter `mode` counts. -/
def uriTarget (uri : Bytes) : Target :=
  let (path, query) := cutAt 0x3F (cutAt 0x23 uri).1
  match uriPath? path with
  | none => .refused
  | some path =>
    let path := unescape path
    let modes := (pieces 0x26 query).filterMap fun parameter =>
      let (key, value) := cutAt 0x3D parameter
      if unescape key == text "mode" then some (unescape value) else none
    match modes.getLast? with
    | none => target path .readWrite
    | some mode =>
      if mode == text "memory" then .scratch
      else if mode == text "ro" then target path .readOnly
      else if mode == text "rw" || mode == text "rwc" then target path .readWrite
      else .refused

/-- The engine for plain paths, of which a part behind a question mark is ignored, and for file
URIs. -/
def standard : Engine where
  resolve name :=
    if (text "file:").isPrefixOf name then uriTarget (name.drop 5)
    else if name.head? == some 0x3F then target name .readWrite
    else target (cutAt 0x3F name).1 .readWrite

end Engine

end Brainfuck
