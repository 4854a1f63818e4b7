import Brainfuck.CommandLine
import Brainfuck.Store.Archive
import Std.Time.DateTime.Timestamp

/-!
# Main

The program itself. The files that an invocation names are read into a disk, the invocation runs on
that disk, and what it changed there is written back.

## Main Definitions

* `Terminal.run` — one invocation in the world
* `main` — the entry point
-/

namespace Brainfuck.Terminal

/-- More instructions than any run can execute. -/
def fuel : Nat :=
  Nat.pow 2 62

/-- The text of some bytes, for a path or a message. -/
def toText (t : Bytes) : String :=
  match String.fromUTF8? (ByteArray.mk t.toArray) with
  | some s => s
  | none => String.ofList (t.map fun b => Char.ofNat b.toNat)

/-- The path of a location. -/
def pathOf (l : Location) : String :=
  "/" ++ toText (Path.joinElements l)

/-- What the file system holds at a location. -/
def probe (l : Location) : IO (Option Node) := do
  try
    let path ← IO.FS.realPath (pathOf l)
    if ← path.isDir then return some .directory
    let content := (← IO.FS.readBinFile path).data.toList
    match Archive.read? content with
    | some db => return some (.database db)
    | none => return some (.file content)
  catch _ => return none

/-- Puts the nodes on the way along some elements on a disk. -/
def loadAlong (disk : Disk) (here : Location) : List Bytes → IO Disk
  | [] => return disk
  | e :: rest => do
    let here := if e.isEmpty || e == Path.self then here
      else if e == Path.above then here.dropLast
      else here ++ [e]
    match ← probe here with
    | some node => loadAlong (disk.set here node) here rest
    | none => return disk

/-- Puts what a path names on a disk. -/
def loadPath (disk : Disk) (path : Bytes) : IO Disk :=
  loadAlong disk (if Path.isRooted path then [] else disk.working) (Path.elements path)

/-- A disk with the working directory and nothing else. -/
def workingDisk : IO Disk := do
  let path := text (← IO.currentDir).toString
  let working := (Path.elements path).filter (!·.isEmpty)
  let disk ← loadAlong {} [] working
  return { disk with working }

/-- A disk with everything that an invocation may look at. -/
def loadDisk (flags : Flags) : IO Disk := do
  let disk ← [flags.config, flags.file, flags.traceDir].foldlM loadPath (← workingDisk)
  match CommandLine.configure flags disk with
  | .ok config => [config.db, config.traceDir].foldlM loadPath disk
  | .error _ => return disk

/-- Writes what an invocation changed. -/
def saveDisk (before after : Disk) : IO Unit :=
  for (l, node) in after.nodes.reverse do
    if before.node? l != some node then
      match node with
      | .directory => IO.FS.createDirAll (pathOf l)
      | .file content => IO.FS.writeBinFile (pathOf l) (ByteArray.mk content.toArray)
      | .database db => IO.FS.writeBinFile (pathOf l) (ByteArray.mk (Archive.write db).toArray)

/-- Days from the start of year one to the start of the year 1970. -/
def daysBeforeEpoch : Nat :=
  719162

/-- The current time. -/
def currentTime : IO Timestamp := do
  let sinceEpoch := (← Std.Time.Timestamp.now).toNanosecondsSinceUnixEpoch.val
  return Timestamp.ofInstant (daysBeforeEpoch * 86400000000000 + sinceEpoch).toNat

/-- Random bits for identities. -/
def randomBits : IO Nat := do
  let bytes ← IO.getRandomBytes 16
  return bytes.data.foldl (fun n b => 256 * n + b.toNat) 0

/-- Everything that is left on a stream. -/
partial def readAll (stream : IO.FS.Stream) (done : ByteArray) : IO ByteArray := do
  let chunk ← stream.read 65536
  if chunk.isEmpty then return done else readAll stream (done ++ chunk)

/-- Whether the flags choose a program, so that the input is not the program. -/
def namesProgram (flags : Flags) : Bool :=
  flags.list ||
    [flags.file, flags.source, flags.sample, flags.run].any fun choice => !choice.isEmpty

/-- Runs an invocation. The time that a benchmark takes is measured on a first run, and reported by
a second one. -/
def invoke (flags : Flags) (input : Feed) (host : Host) : IO (Option Outcome) := do
  if 0 < flags.bench then
    let start ← IO.monoNanosNow
    let failed := (CommandLine.run .standard fuel flags input {} host).isNone
    if failed then return none
    let stop ← IO.monoNanosNow
    let host := { host with elapsed := Int64.ofNat (stop - start) }
    return CommandLine.run .standard fuel flags input {} host
  else return CommandLine.run .standard fuel flags input {} host

/-- Prints bytes on a stream. -/
def printBytes (stream : IO.FS.Stream) (t : Bytes) : IO Unit := do
  stream.write (ByteArray.mk t.toArray)
  stream.flush

/-- Shows what a session has printed beyond what was shown before. -/
def reveal (shown : IO.Ref Nat) (s : Session) : IO Unit := do
  let printed := s.console.sink.received
  printBytes (← IO.getStdout) (printed.extract (← shown.get) printed.size).toList
  shown.set printed.size

/-- The exit code of a result, whose error is shown. -/
def report (result : Except CommandError Unit) : IO UInt32 := do
  match result with
  | .ok () => return 0
  | .error e =>
    printBytes (← IO.getStderr) (text "Error: " ++ e.message ++ text "\n")
    return 1

/-- Runs the program that the flags or the standard input give. -/
def runProgram (flags : Flags) (host : Host) : IO UInt32 := do
  let isTerminal ← (← IO.getStdin).isTty
  let content ← if isTerminal && flags.list then pure ByteArray.empty
    else readAll (← IO.getStdin) .empty
  match ← invoke flags { bytes := content.data.toList } host with
  | none => return 1
  | some outcome =>
    printBytes (← IO.getStdout) outcome.output.received.toList
    printBytes (← IO.getStderr) outcome.messages
    saveDisk host.disk outcome.host.disk
    report outcome.result

/-- Runs the lines that a user types. -/
def runPrompt (flags : Flags) (host : Host) : IO UInt32 := do
  match CommandLine.openSession .standard flags Feed.empty {} host with
  | (.error e, after) =>
    saveDisk host.disk after.disk
    report (.error e)
  | (.ok (_, s), _) =>
    let shown ← IO.mkRef 0
    let ask (s : Session) : IO Bytes := do
      reveal shown s
      return text (← (← IO.getStdin).getLine)
    match ← Prompt.talk ask fuel fuel s with
    | none => return 1
    | some s =>
      reveal shown s
      saveDisk host.disk s.close.2.host.disk
      return 0

/-- One invocation in the world. Gives the exit code. -/
def run (arguments : List String) : IO UInt32 := do
  match Flags.parse (arguments.map text) with
  | .error e =>
    printBytes (← IO.getStderr) (Flags.complaint e)
    return 2
  | .ok flags =>
    let host : Host :=
      { disk := ← loadDisk flags, nextId := ← randomBits, now := ← currentTime }
    if (← (← IO.getStdin).isTty) && !namesProgram flags then runPrompt flags host
    else runProgram flags host

end Brainfuck.Terminal

/-- The entry point. -/
def main (arguments : List String) : IO UInt32 :=
  Brainfuck.Terminal.run arguments
