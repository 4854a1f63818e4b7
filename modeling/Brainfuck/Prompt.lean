import Brainfuck.Session
import Brainfuck.Text.Blank
import Brainfuck.Text.Numeral
import Brainfuck.Text.Quoted

/-!
# Prompt

A prompt reads a script line by line and runs it on the tape of a session. A line with an open
bracket is continued by the next one; a line that starts with a colon is a command to the prompt.

## Main Definitions

* `bracketDepth` — how many brackets a text leaves open
* `Prompt.classify` — what a line means after the lines before it
* `Prompt.command` — the effect of a command line
* `Prompt.Stage` — what the prompt holds between two lines
* `Prompt.Heard` — a line with the stage that it finds
* `Prompt.Stage.hear`, `Prompt.Heard.carryOut` — the two halves of a turn
* `Prompt.run` — a whole script
* `Prompt.converse`, `Prompt.talk` — a script that is typed while it runs

## Design Notes

The script may be the input of the session itself; a program that reads then takes bytes of the
script. Every line read takes a byte of the script, so the number of its bytes bounds the number of
lines.

A conversation does not know the end of its script. It takes a turn when what is typed later cannot
change it: the line is complete, and no program meets the end of the input. A turn that has to wait
is taken again from its start when more was typed. The monad of a conversation is that of its user.
-/

namespace Brainfuck

/-- The number of opening brackets less the number of closing ones. -/
def bracketDepth (t : Bytes) : Int :=
  (t.count 0x5B : Int) - t.count 0x5D

namespace Prompt

/-- The text that greets a user. -/
def banner : Bytes :=
  text "bf REPL (Ctrl+D to exit)\n\n" ++
    text "The tape persists between lines. An open '[' continues on the next line.\n" ++
    text "  :tape [n]  show the first n cells (default 10)\n" ++
    text "  :reset     clear the tape\n" ++
    text "  :quit      exit\n\n"

/-- The text that asks for a line, given the lines that wait for it. -/
def question (pending : Bytes) : Bytes :=
  if pending.isEmpty then text ">>> " else text "... "

/-- A line without the line end. -/
def trimLine (line : Bytes) : Bytes :=
  (line.reverse.dropWhile fun b => b == 0x0A || b == 0x0D).reverse

/-- What a line means. -/
inductive Meaning where
  | command (line : Bytes)
  /-- The text so far leaves a bracket open and waits for another line. -/
  | waiting (pending : Bytes)
  | source (source : Bytes)
  deriving DecidableEq, Repr

/-- What a line means after the pending lines before it. `last` says that no line follows. -/
def classify (pending line : Bytes) (last : Bool) : Meaning :=
  if pending.isEmpty && line.head? == some 0x3A then .command line
  else
    let source := pending ++ line ++ [0x0A]
    if 0 < bracketDepth source && !last then .waiting source else .source source

/-- The cells of a tape as text. -/
def cellsText (cells : List Int32) : Bytes :=
  (text " ").intercalate (cells.map fun c => signed c.toInt)

/-- Shows the first cells of the tape: ten, or as many as the argument says. -/
def showTape (s : Session) (argument : Option Bytes) : Session :=
  match argument with
  | none => s.print (cellsText (s.tape.toList.take 10) ++ text "\n")
  | some count =>
    match (Numeral.ofDecimal? count).filter (0 < ·) with
    | some n => s.print (cellsText (s.tape.toList.take n.toNat) ++ text "\n")
    | none => s.print (text "Error: bad cell count " ++ quoted count ++ text "\n")

/-- Carries out the command with a name. The first component says whether the prompt ends. -/
def perform (s : Session) (name : Bytes) (arguments : List Bytes) : Bool × Session :=
  if name == text ":quit" || name == text ":q" then (true, s)
  else if name == text ":reset" then (false, s.reset)
  else if name == text ":tape" then (false, showTape s arguments.head?)
  else (false, s.print (text "Error: unknown command " ++ name ++ text "\n"))

/-- Carries out a command line, which must have a word. -/
def command (s : Session) (line : Bytes) : Except Fault (Bool × Session) :=
  match fields line with
  | [] => .error (.index 0 0)
  | name :: arguments => .ok (perform s name arguments)

/-- Runs a source and shows its error, unless the program only ran out of input. -/
def runSource (s : Session) (fuel : Nat) (interactive : Bool) (source : Bytes) : Option Session :=
  if isBlankText source then some s
  else
    match s.run fuel source with
    | none => none
    | some (.error e, s) =>
      if e.isEndOfInput then some (if interactive then s.print [0x0A] else s)
      else some (s.print (text "Error: " ++ e.message ++ text "\n"))
    | some (.ok (), s) => some (if interactive then s.print [0x0A] else s)

/-- Reads a line of the script, or of the input of the session if there is no other script. The
second component says why the script stopped, if it did. -/
def readLine (script : Option Feed) (s : Session) :
    Bytes × Option StreamError × Option Feed × Session :=
  match script with
  | some feed =>
    let (line, stop, feed) := feed.line
    (line, stop, some feed, s)
  | none =>
    match s with
    | { settings, tape, console := { feed, writer, sink }, store, host } =>
      let (line, stop, feed) := feed.line
      (line, stop, none, { settings, tape, console := { feed, writer, sink }, store, host })

/-! ## Turns -/

/-- What the prompt holds between two lines. Without a script the lines come from the input of the
session. -/
structure Stage where
  pending : Bytes := []
  script : Option Feed
  session : Session
  deriving DecidableEq, Repr

/-- A line that the prompt has heard. -/
structure Heard where
  line : Bytes
  /-- Whether the script stopped behind the line. -/
  last : Bool
  /-- What the prompt held when it heard the line, without the line itself. -/
  stage : Stage
  deriving DecidableEq, Repr

/-- What carrying out a line comes to. -/
inductive Outcome where
  | goesOn (next : Stage)
  | finished (session : Session)
  /-- A program does not end within its number of instructions. -/
  | endless
  deriving DecidableEq, Repr

/-- Asks for a line and reads it. -/
def Stage.hear (interactive : Bool) (st : Stage) : Heard :=
  let asked := if interactive then st.session.print (question st.pending) else st.session
  let (line, stop, script, session) := readLine st.script asked
  { line, last := stop.isSome, stage := { pending := st.pending, script, session } }

/-- What a line means to the prompt that has heard it. -/
def Heard.meaning (h : Heard) : Meaning :=
  classify h.stage.pending (trimLine h.line) h.last

/-- Carries out a line. -/
def Heard.carryOut (fuel : Nat) (interactive : Bool) (h : Heard) : Outcome :=
  match h.meaning with
  | .waiting pending => .goesOn { h.stage with pending }
  | .source source =>
    match runSource h.stage.session fuel interactive source with
    | none => .endless
    | some session => .goesOn { h.stage with pending := [], session }
  | .command line =>
    match command h.stage.session line with
    | .ok (false, session) => .goesOn { h.stage with pending := [], session }
    | .ok (true, session) => .finished session
    | .error _ => .finished h.stage.session

/-- Hears a line and carries it out. Without a line the prompt ends. -/
def Stage.turn (fuel : Nat) (interactive : Bool) (st : Stage) : Outcome :=
  let h := st.hear interactive
  if h.line.isEmpty then
    .finished (if interactive then h.stage.session.print [0x0A] else h.stage.session)
  else h.carryOut fuel interactive

/-- Takes up to `budget` turns. -/
def runLines (fuel : Nat) (interactive : Bool) : Nat → Stage → Option Session
  | 0, st => some st.session
  | budget + 1, st =>
    match st.turn fuel interactive with
    | .goesOn next => runLines fuel interactive budget next
    | .finished session => some session
    | .endless => none

/-- Runs a script, or the input of the session if there is no other script. Each of its programs
may execute `fuel` instructions. -/
def run (s : Session) (fuel : Nat) (interactive : Bool) (script : Option Feed) : Option Session :=
  let s := if interactive then s.print banner else s
  let feed := script.getD s.console.feed
  runLines fuel interactive (feed.bytes.length + 1) { script, session := s }

/-! ## Conversations -/

/-- Whether a line runs a program that meets the end of its input. -/
def Heard.meetsEnd (fuel : Nat) (h : Heard) : Bool :=
  match h.meaning with
  | .source source =>
    match h.stage.session.run fuel source with
    | some (.error (.run (.input _ e)), _) =>
      !isBlankText source && e == h.stage.session.console.feed.stop
    | _ => false
  | _ => false

/-- What comes of a turn while more may be typed. -/
inductive Progress where
  | taken (outcome : Outcome)
  /-- The turn needs a line that is still to be typed. It comes as far as the session says. -/
  | waits (session : Session)
  deriving DecidableEq, Repr

/-- The session when the program of a line has ended. -/
def Heard.afterRun (fuel : Nat) (h : Heard) : Session :=
  match h.meaning with
  | .source source => ((h.stage.session.run fuel source).map (·.2)).getD h.stage.session
  | _ => h.stage.session

/-- Takes a turn with the input that was typed so far, unless that may depend on what follows. -/
def Stage.attempt (fuel : Nat) (st : Stage) : Progress :=
  let h := st.hear true
  if h.last then .waits (st.session.print (question st.pending))
  else if h.meetsEnd fuel then .waits (h.afterRun fuel)
  else .taken (h.carryOut fuel true)

/-- A stage with more bytes behind the input of its session. -/
def Stage.extended (st : Stage) (more : Bytes) : Stage :=
  { st with session := st.session.extended more }

/-- Talks to a user for up to `budget` steps. A user is asked for a line when the prompt can do no
more without it, and then sees what the session has printed so far; an empty line is the end of the
input. -/
def converse {m : Type → Type} [Monad m] (ask : Session → m Bytes) (fuel : Nat) :
    Nat → Stage → m (Option Session)
  | 0, st => pure (some st.session)
  | budget + 1, st =>
    match st.attempt fuel with
    | .waits session => do
      let line ← ask session
      if line.isEmpty then
        pure (runLines fuel true (st.session.console.feed.bytes.length + 1) st)
      else converse ask fuel budget (st.extended line)
    | .taken (.goesOn next) => converse ask fuel budget next
    | .taken (.finished session) => pure (some session)
    | .taken .endless => pure none

/-- Talks to a user from the start. -/
def talk {m : Type → Type} [Monad m] (ask : Session → m Bytes) (fuel budget : Nat) (s : Session) :
    m (Option Session) :=
  converse ask fuel budget { script := none, session := s.print banner }

end Prompt

end Brainfuck
