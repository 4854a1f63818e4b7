import Brainfuck.Command
import Brainfuck.Position
import Brainfuck.Stream.Feed
import Brainfuck.Text.Rune

/-!
# Sources

A source is read rune by rune. Runes that are no command are comments; a line feed starts a new
line.

## Main Definitions

* `Cursor` — how far a source has been read, in lines and columns
* `Cursor.read` — the effect of one byte
* `Scanner.next` — the next command of a source
* `foldCommands` — a fold over all commands of a source

## Design Notes

The recursions are on the bytes of the source. A cursor therefore also counts the bytes still
owed to the rune that was begun last: they change neither the line nor the column, and none of
them can be a command or a line feed, since those are ASCII.
-/

namespace Brainfuck

/-- How far a source has been read. -/
structure Cursor where
  /-- The current line, counted from one. -/
  line : Nat
  /-- The column of the last rune read, zero at the start of a line. -/
  column : Nat
  /-- The bytes still to come of the last rune. -/
  owed : Nat
  deriving DecidableEq, Repr

namespace Cursor

/-- The cursor before the first byte. -/
def start : Cursor :=
  ⟨1, 0, 0⟩

/-- The position of the last rune read. -/
def here (c : Cursor) : Position :=
  ⟨c.line, c.column⟩

/-- The position of the next rune. -/
def ahead (c : Cursor) : Position :=
  ⟨c.line, c.column + 1⟩

/-- Reads the byte `b`, before the bytes `rest`, and says which command it is. -/
def read (c : Cursor) (b : UInt8) (rest : Bytes) : Cursor × Option Command :=
  match c.owed with
  | owed + 1 => ({ c with owed }, none)
  | 0 =>
    if b = 0x0A then (⟨c.line + 1, 0, 0⟩, none)
    else (⟨c.line, c.column + 1, Rune.width b rest - 1⟩, Command.ofByte? b)

end Cursor

/-- What a scanner finds. -/
inductive Item where
  /-- A command of the source. -/
  | command (command : Command) (position : Position)
  /-- The end of the source, one column after its last rune. -/
  | finish (position : Position)
  /-- The failure of the feed. -/
  | failure (message : Bytes)
  deriving DecidableEq, Repr

/-- A source of which a part has been read. -/
structure Scanner where
  cursor : Cursor
  feed : Feed
  deriving DecidableEq, Repr

namespace Scanner

/-- A scanner at the start of a source. -/
def ofFeed (feed : Feed) : Scanner :=
  ⟨Cursor.start, feed⟩

/-- Reads on to the next command in `bytes`. -/
def advance (failure : Option Bytes) (cursor : Cursor) : Bytes → Item × Scanner
  | [] =>
    let item := match failure with
      | none => Item.finish cursor.ahead
      | some m => Item.failure m
    (item, ⟨cursor, { bytes := [], failure }⟩)
  | b :: rest =>
    match cursor.read b rest with
    | (cursor, some c) => (.command c cursor.here, ⟨cursor, { bytes := rest, failure }⟩)
    | (cursor, none) => advance failure cursor rest

/-- The next command, or the end or failure of the source, which every later call finds again. -/
def next (s : Scanner) : Item × Scanner :=
  advance s.feed.failure s.cursor s.feed.bytes

end Scanner

/-- Folds `f` over the commands of a source, each with its position, up to the first error. -/
def foldCommands {β ε : Type} (f : β → Command → Position → Except ε β) (cursor : Cursor)
    (state : β) : Bytes → Except ε β
  | [] => .ok state
  | b :: rest =>
    match cursor.read b rest with
    | (cursor, some c) =>
      match f state c cursor.here with
      | .ok state => foldCommands f cursor state rest
      | .error e => .error e
    | (cursor, none) => foldCommands f cursor state rest

/-- The commands of a source in order, each with its position. -/
def commandsFrom (cursor : Cursor) : Bytes → List (Command × Position)
  | [] => []
  | b :: rest =>
    match cursor.read b rest with
    | (cursor, some c) => (c, cursor.here) :: commandsFrom cursor rest
    | (cursor, none) => commandsFrom cursor rest

/-- The commands of a whole source. -/
def commands (source : Bytes) : List (Command × Position) :=
  commandsFrom Cursor.start source

/-- A fold over a source is a fold over its commands. -/
theorem foldCommands_eq_foldlM {β ε : Type} (f : β → Command → Position → Except ε β)
    (cursor : Cursor) (state : β) (bytes : Bytes) :
    foldCommands f cursor state bytes =
      (commandsFrom cursor bytes).foldlM (fun state (c, p) => f state c p) state := by
  induction bytes generalizing cursor state with
  | nil => rfl
  | cons b rest ih =>
    rw [foldCommands, commandsFrom]
    rcases cursor.read b rest with ⟨cursor', _ | c⟩
    · exact ih cursor' state
    · simp only [List.foldlM_cons]
      cases h : f state c cursor'.here with
      | ok state' => exact ih cursor' state'
      | error e => rfl

end Brainfuck
