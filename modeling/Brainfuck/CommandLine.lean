import Brainfuck.Flags
import Brainfuck.Prompt
import Brainfuck.Report
import Brainfuck.Session.Bench
import Brainfuck.Stepper

/-!
# Command line

One invocation of the tool: the flags choose a program and what to do with it.

## Main Definitions

* `CommandError` — why an invocation failed
* `Invocation` — a session in use, with the messages to the user so far
* `CommandLine.run` — an invocation from its flags

## Design Notes

What a program writes goes to the sink of the session; messages about the program are kept apart.
A program that runs out of input ends there without an error.
-/

namespace Brainfuck

/-- Why an invocation failed. -/
inductive CommandError where
  | config (cause : ConfigError)
  | store (cause : StoreError)
  | file (cause : DiskError)
  | session (cause : SessionError)
  | fault (cause : Fault)
  deriving DecidableEq, Repr

/-- The message of a command error. -/
def CommandError.message : CommandError → Bytes
  | config cause => cause.message
  | store cause => cause.message
  | file cause => cause.message
  | session cause => cause.message
  | fault cause => cause.message

/-- A session in use. -/
structure Invocation where
  session : Session
  /-- The messages to the user. -/
  messages : Bytes := []
  deriving DecidableEq, Repr

/-- The end of an invocation. -/
structure Outcome where
  result : Except CommandError Unit
  output : Sink := {}
  messages : Bytes := []
  host : Host

namespace Invocation

/-- Adds a message to the user. -/
def tell (i : Invocation) (message : Bytes) : Invocation :=
  { i with messages := i.messages ++ message }

/-- Ends an invocation: the session is closed. -/
def finish (i : Invocation) (result : Except CommandError Unit) : Outcome :=
  let s := i.session.close.2
  { result, output := s.console.sink, messages := i.messages, host := s.host }

/-- Lists the programs. -/
def listPrograms (i : Invocation) : Outcome :=
  match i.session.programs with
  | .error e => i.finish (.error (.session e))
  | .ok names =>
    finish { i with session := i.session.print (names.flatMap (· ++ [0x0A])) } (.ok ())

/-- The name and the source of the program that the flags choose. Without a choice the input of
the session is the program. -/
def choose (i : Invocation) (flags : Flags) : Except CommandError (Bytes × Bytes) × Invocation :=
  let load name := ((i.session.load name).mapError CommandError.session).map fun source =>
    (name, source)
  if !flags.file.isEmpty then
    (((i.session.host.disk.read flags.file).mapError .file).map fun source =>
      (flags.file, source), i)
  else if !flags.source.isEmpty then (.ok (text "-e", flags.source), i)
  else if !flags.sample.isEmpty then (load flags.sample, i)
  else if !flags.run.isEmpty then (load flags.run, i)
  else
    let console := i.session.console
    let session := { i.session with console := { console with feed := Feed.empty } }
    match console.feed.failure with
    | none => (.ok (text "stdin", console.feed.bytes), { i with session })
    | some m =>
      (.error (.session (.observer (text "reading stdin: " ++ m))), { i with session })

/-- Saves the program if the flags ask for it. -/
def keep (i : Invocation) (flags : Flags) (source : Bytes) :
    Except CommandError Unit × Invocation :=
  if flags.save.isEmpty then (.ok (), i)
  else match i.session.save flags.save source with
    | (.error e, session) => (.error (.session e), { i with session })
    | (.ok (), session) =>
      (.ok (), tell { i with session } (text "saved " ++ flags.save ++ text "\n"))

/-- Whether nothing is left to do for a program that has been saved. -/
def onlySaves (flags : Flags) : Bool :=
  !flags.save.isEmpty && flags.bench == 0 && !flags.step && !flags.disasm

/-- The recorded runs for a report, if they can be had. -/
def history (s : Session) (name : Bytes) : List Run :=
  match s.runs name historyLength with
  | some (.ok runs) => runs
  | _ => []

/-- Benchmarks a program and reports it. -/
def bench (i : Invocation) (fuel : Nat) (config : Config) (name source : Bytes) :
    Option Outcome :=
  match i.session.bench fuel name source config.bench.iterations config.bench.outputCapacity with
  | none => none
  | some (.error e, session) => some (finish { i with session } (.error (.session e)))
  | some (.ok run, session) =>
    let report := benchReport session.host.now run (history session name)
    some (finish { i with session := session.print report } (.ok ()))

/-- The result of a run, in which the end of the input is no error. -/
def runResult : Except SessionError Unit → Except CommandError Unit
  | .ok () => .ok ()
  | .error e => if e.isEndOfInput then .ok () else .error (.session e)

/-- The message about a trace. -/
def traceMessage (d : Document) : Bytes :=
  text "trace: " ++ d.path ++ text " (" ++ decimal d.lines ++ text " lines)\n"

/-- Compiles a program and lists, steps through or runs it. -/
def perform (i : Invocation) (fuel : Nat) (flags : Flags) (source : Bytes) : Option Outcome :=
  match i.session.compile source with
  | (.error e, session) => some (finish { i with session } (.error (.session (.compile e))))
  | (.ok p, session) =>
    let i := tell { i with session } (p.document.elim [] traceMessage)
    if flags.disasm then
      some (finish { i with session := i.session.print (listing p.code) } (.ok ()))
    else if flags.step then
      match Stepper.run {} i.session fuel p.code with
      | none => none
      | some (r, session, stepper) =>
        some (finish (tell { i with session } stepper.shown.received.toList) (runResult r))
    else match i.session.execute fuel p.code with
      | none => none
      | some (r, session) => some (finish { i with session } (runResult r))

/-- Does what the flags ask for. -/
def proceed (i : Invocation) (fuel : Nat) (flags : Flags) (config : Config) : Option Outcome :=
  if flags.list then some i.listPrograms
  else match i.choose flags with
    | (.error e, i) => some (i.finish (.error e))
    | (.ok (name, source), i) =>
      match i.keep flags source with
      | (.error e, i) => some (i.finish (.error e))
      | (.ok (), i) =>
        if onlySaves flags then some (i.finish (.ok ()))
        else if 0 < flags.bench then i.bench fuel config name source
        else i.perform fuel flags source

end Invocation

namespace CommandLine

/-- The configuration of a file with the flags on top. -/
def configure (flags : Flags) (disk : Disk) : Except CommandError Config := do
  let config ← (Config.load flags.config disk).mapError .config
  let config := flags.apply config
  (config.validate.mapError ConfigError.setting).mapError .config
  .ok config

/-- The store of an invocation, if it needs one. -/
def openStore (engine : Engine) (flags : Flags) (config : Config) (disk : Disk) :
    Except CommandError StoreAccess × Disk :=
  if flags.needsStore then
    let (r, disk) := Store.openDatabase engine config.db disk
    ((r.mapError .store).map .present, disk)
  else (.ok .absent, disk)

/-- The configuration and the session of an invocation. The host is returned also if there are
none, since opening a store may have changed its disk. -/
def openSession (engine : Engine) (flags : Flags) (input : Feed) (output : Sink) (host : Host) :
    Except CommandError (Config × Session) × Host :=
  match configure flags host.disk with
  | .error e => (.error e, host)
  | .ok config =>
    match openStore engine flags config host.disk with
    | (.error e, disk) => (.error e, { host with disk })
    | (.ok store, disk) =>
      let host := { host with disk }
      let settings : Settings :=
        { tapeSize := config.tapeSize, strict := config.strictBrackets,
          traceDir := config.traceDir }
      match Session.start settings store { feed := input, sink := output } host with
      | .error f => (.error (.fault f), host)
      | .ok session => (.ok (config, session), host)

/-- One invocation. Each run of a program may execute `fuel` instructions. -/
def run (engine : Engine) (fuel : Nat) (flags : Flags) (input : Feed) (output : Sink)
    (host : Host) : Option Outcome :=
  match openSession engine flags input output host with
  | (.error e, host) => some { result := .error e, output, host }
  | (.ok (config, session), _) => Invocation.proceed { session } fuel flags config

end CommandLine

end Brainfuck
