import Brainfuck.Machine
import Brainfuck.Program
import Brainfuck.Sample
import Brainfuck.Store
import Brainfuck.Stream.Console
import Brainfuck.Stream.Memory
import Brainfuck.Text.Uuid

/-!
# Sessions

A session compiles and runs programs on one tape and one console, and keeps them in a store.

## Main Definitions

* `Host` — what a session is told from outside: a disk, a clock and fresh identities
* `Session` — the tape, the console, the store and the settings
* `SessionError` — why a call failed
* `Session.compile`, `Session.execute`, `Session.watch`, `Session.run` — programs that run
* `Session.save`, `Session.load`, `Session.programs` — programs that are kept

## Design Notes

Cells of the tape persist from run to run. Everything a program wrote is delivered when its run
ends, however it ends, and the error of the run comes before an error of the delivery.
-/

namespace Brainfuck

/-- What a session is told from outside. -/
structure Host where
  disk : Disk := {}
  /-- The random bits of the next identity. -/
  nextId : Nat := 0
  /-- The current time. -/
  now : Timestamp := Timestamp.zero
  /-- Nanoseconds that a benchmark takes. -/
  elapsed : Int64 := 0
  deriving DecidableEq, Repr

/-- A fresh identity. -/
def Host.freshId (h : Host) : Bytes × Host :=
  (uuid h.nextId, { h with nextId := h.nextId + 1 })

/-- The settings of a trace. An empty identity is replaced by a fresh one. -/
def Host.trace (h : Host) (dir id : Bytes) : TraceSettings × Host :=
  if id.isEmpty then
    let (id, h) := h.freshId
    ({ dir, id }, h)
  else ({ dir, id }, h)

/-- The number of cells of a tape for which no size is given. -/
def defaultTapeSize : Nat :=
  30000

/-- The settings of a session. -/
structure Settings where
  /-- The number of cells; a number that is not positive stands for the default. -/
  tapeSize : Int := defaultTapeSize
  strict : Bool := false
  /-- Where traces are written; an empty text stands for no traces. -/
  traceDir : Bytes := []
  deriving DecidableEq, Repr

/-- The store of a session. -/
inductive StoreAccess where
  | absent
  /-- A store was asked for and could not be opened. -/
  | unavailable (cause : StoreError)
  | present (store : Store)
  deriving DecidableEq, Repr

/-- Why a benchmark failed. -/
inductive BenchError where
  | noIterations
  | run (iteration : Nat) (cause : RunError)
  /-- An iteration wrote something else than the first one. -/
  | output (iteration : Nat)
  | record (cause : StoreError)
  deriving DecidableEq, Repr

/-- The message of a benchmark error. -/
def BenchError.message : BenchError → Bytes
  | noIterations => text "iterations must be positive"
  | run iteration cause => text "iteration " ++ decimal iteration ++ text ": " ++ cause.message
  | output iteration => text "iteration " ++ decimal iteration ++ text " produced different output"
  | record cause => text "record: " ++ cause.message

/-- Why a call on a session failed. -/
inductive SessionError where
  | compile (cause : CompileError)
  | run (cause : RunError)
  /-- The output of a run could not be delivered. -/
  | delivery (cause : StreamError)
  /-- An observer ended a run with a message. -/
  | observer (message : Bytes)
  | store (cause : StoreError)
  | saveUnavailable (name : Bytes) (cause : StoreError)
  | saveRejected (name : Bytes) (cause : CompileError)
  | noStore
  | notFound (name : Bytes)
  | bench (name : Bytes) (cause : BenchError)
  | fault (cause : Fault)
  deriving DecidableEq, Repr

namespace SessionError

/-- The message of a session error. -/
def message : SessionError → Bytes
  | compile cause => cause.message
  | run cause => cause.message
  | delivery cause => cause.message
  | observer m => m
  | store cause => cause.message
  | saveUnavailable name cause => text "save " ++ name ++ text ": " ++ cause.message
  | saveRejected name cause => text "save " ++ name ++ text ": " ++ cause.message
  | noStore => text "no program store configured"
  | notFound name => name ++ text ": program not found"
  | bench name cause => text "bench " ++ name ++ text ": " ++ cause.message
  | fault cause => cause.message

/-- Whether a program ran out of input. -/
def isEndOfInput : SessionError → Bool
  | run (.input _ .endOfInput) => true
  | _ => false

end SessionError

/-- A tape, a console, a store and the settings. -/
structure Session where
  settings : Settings
  tape : Tape
  console : Console
  store : StoreAccess
  host : Host
  deriving DecidableEq, Repr

namespace Session

/-- A session before its first call. -/
def start (settings : Settings) (store : StoreAccess) (console : Console) (host : Host) :
    Except Fault Session := do
  let size ← checkLength 4 (if 0 < settings.tapeSize then settings.tapeSize else defaultTapeSize)
  .ok { settings, tape := Tape.zero size, console, store, host }

/-- Clears every cell of the tape. -/
def reset (s : Session) : Session :=
  { s with tape := Tape.zero s.tape.size }

/-- Writes a text to the sink behind the console. -/
def print (s : Session) (t : Bytes) : Session :=
  match s with
  | { settings, tape, console := { feed, writer, sink }, store, host } =>
    { settings, tape, console := { feed, writer, sink := sink.print t }, store, host }

/-- What has arrived at the sink. -/
def printed (s : Session) : Bytes :=
  s.console.sink.received.toList

/-- A session with another input. -/
def fed (s : Session) (feed : Feed) : Session :=
  { s with console := s.console.fed feed }

/-- A session with more bytes behind its input. -/
def extended (s : Session) (more : Bytes) : Session :=
  s.fed (s.console.feed.extended more)

/-- Compiles a source by the settings of the session. -/
def compile (s : Session) (source : Bytes) : Except CompileError Program × Session :=
  let (trace, host) := if s.settings.traceDir.isEmpty then (none, s.host)
    else
      let (trace, host) := s.host.trace s.settings.traceDir []
      (some trace, host)
  let (r, disk) := Program.compile { strict := s.settings.strict, trace } { bytes := source }
    host.disk
  (r, { s with host := { host with disk } })

/-- Delivers what a run wrote. The error of the run comes before that of the delivery. -/
def settle (result : Except SessionError Unit) (console : Console) :
    Except SessionError Unit × Console :=
  match result, console.flush with
  | .error e, (_, console) => (.error e, console)
  | .ok (), (.ok (), console) => (.ok (), console)
  | .ok (), (.error e, console) => (.error (.delivery e), console)

/-- Runs code on the tape and the console. -/
def execute (s : Session) (fuel : Nat) (code : Code) :
    Option (Except SessionError Unit × Session) :=
  match s with
  | { settings, tape, console, store, host } =>
    match Brainfuck.execute Console.channel code fuel tape console with
    | none => none
    | some (r, { tape, world, .. }) =>
      let (result, console) := settle (r.mapError .run) world
      some (result, { settings, tape, console, store, host })

/-- An observer of a session: it sees a snapshot and the sink, and has a state of its own. -/
abbrev Watcher (σ : Type) := Snapshot → Sink → σ → Signal SessionError × σ

/-- The observer that delivers the output first and then asks a watcher. -/
def observer {σ : Type} (watcher : Watcher σ) : Observer (Console × σ) SessionError :=
  fun seen (console, log) =>
    match console.flush with
    | (.error e, console) => (.fail (.delivery e), console, log)
    | (.ok (), console) =>
      let (signal, log) := watcher seen console.sink log
      (signal, console, log)

/-- The result of an observed run. -/
def resultOf : Ending SessionError → Except SessionError Unit
  | .finished => .ok ()
  | .halted => .ok ()
  | .interrupted cause => .error cause
  | .failed cause => .error (.run cause)

/-- Runs code like `execute`, under the eyes of a watcher. -/
def watch {σ : Type} (s : Session) (fuel : Nat) (code : Code) (watcher : Watcher σ) (log : σ) :
    Option (Except SessionError Unit × Session × σ) :=
  match s with
  | { settings, tape, console, store, host } =>
    match observe (Console.channel.beside σ) (observer watcher) code fuel tape (console, log) with
    | none => none
    | some (ending, { tape, world := (console, log), .. }) =>
      let (result, console) := settle (resultOf ending) console
      some (result, { settings, tape, console, store, host }, log)

/-- Compiles and runs a source. -/
def run (s : Session) (fuel : Nat) (source : Bytes) :
    Option (Except SessionError Unit × Session) :=
  match s.compile source with
  | (.error e, s) => some (.error (.compile e), s)
  | (.ok p, s) => s.execute fuel p.code

/-- Runs a source on a fresh tape of the default size that reads from a feed and writes to a
sink. -/
def runOnce (fuel : Nat) (source : Bytes) (feed : Feed) (sink : Sink) (host : Host) :
    Option (Except SessionError Unit × Sink) :=
  let s : Session :=
    { settings := {}, tape := Tape.zero defaultTapeSize, console := { feed, sink },
      store := .absent, host }
  (s.run fuel source).map fun (r, s) => (r, s.console.close.2.sink)

/-- Changes the store, and the disk that it may be on. -/
def changeStore (s : Session) (store : Store)
    (change : Store → Disk → Except StoreError Unit × Store × Disk) :
    Except StoreError Unit × Session :=
  let (r, store, disk) := change store s.host.disk
  (r, { s with store := .present store, host := { s.host with disk } })

/-- Keeps a source under a name, if it has a program. -/
def save (s : Session) (name source : Bytes) : Except SessionError Unit × Session :=
  match s.store with
  | .absent => (.error .noStore, s)
  | .unavailable cause => (.error (.saveUnavailable name cause), s)
  | .present store =>
    match s.compile source with
    | (.error e, s) => (.error (.saveRejected name e), s)
    | (.ok _, s) =>
      let (r, s) := s.changeStore store fun store disk => store.put disk name source
      (r.mapError .store, s)

/-- The source of a name: the program in the store or else the sample. -/
def load (s : Session) (name : Bytes) : Except SessionError Bytes := do
  let stored ← match s.store with
    | .present store => (store.get? s.host.disk name).mapError .store
    | _ => .ok none
  match stored <|> sample? name with
  | some source => .ok source
  | none => .error (.notFound name)

/-- Loads and runs a program. -/
def runNamed (s : Session) (fuel : Nat) (name : Bytes) :
    Option (Except SessionError Unit × Session) :=
  match s.load name with
  | .error e => some (.error e, s)
  | .ok source => s.run fuel source

/-- The names of the programs in the store, and of the samples that none of them hides. -/
def programs (s : Session) : Except SessionError (List Bytes) := do
  let stored ← match s.store with
    | .present store => (store.names s.host.disk).mapError .store
    | _ => .ok []
  .ok (stored ++ sampleNames.filter fun name => !stored.contains name)

/-- The recorded runs of a program, or nothing without a store. -/
def runs (s : Session) (name : Bytes) (limit : Int) : Option (Except StoreError (List Run)) :=
  match s.store with
  | .present store => some (store.runs s.host.disk name limit)
  | _ => none

/-- Delivers the output, takes no more of it, and closes the store. -/
def close (s : Session) : Except StreamError Unit × Session :=
  let (r, console) := s.console.close
  let store := match s.store with
    | .present store => .present store.close
    | other => other
  (r, { s with console, store })

end Session

end Brainfuck
