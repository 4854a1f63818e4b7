import Brainfuck.Config
import Brainfuck.Text.Numeral
import Brainfuck.Text.Quoted

/-!
# Flags

The flags of the command line.

## Main Definitions

* `Flags` — the value of every flag
* `flagTable` — the flags by name, with what they take and their description
* `Flags.parse` — the flags of a list of arguments
* `Flags.usage` — the text that describes all flags
* `Flags.apply` — a configuration with the flags on top

## Design Notes

A flag has one or two dashes. A value follows after an equals sign or, unless the flag is a truth
value, as the next argument. The first argument that is no flag ends them.
-/

namespace Brainfuck

/-- The value of every flag. -/
structure Flags where
  file : Bytes := []
  source : Bytes := []
  sample : Bytes := []
  config : Bytes := text "bf.toml"
  tape : Int := 0
  traceDir : Bytes := []
  step : Bool := false
  bench : Int := 0
  db : Bytes := []
  save : Bytes := []
  run : Bytes := []
  list : Bool := false
  strict : Bool := false
  disasm : Bool := false
  verbosity : Int := -1
  deriving DecidableEq, Repr

/-- What a flag takes. -/
inductive FlagAction where
  | text (set : Flags → Bytes → Flags)
  | integer (set : Flags → Int → Flags)
  | truth (set : Flags → Bool → Flags)

/-- A flag: its name, what it takes, and its description. -/
structure FlagSpec where
  name : Bytes
  action : FlagAction
  description : String

/-- The flags in increasing order of their names. -/
def flagTable : List FlagSpec :=
  [⟨text "bench", .integer ({ · with bench := · }), "Benchmark: execute the program N times"⟩,
    ⟨text "config", .text ({ · with config := · }), "Configuration file (default \"bf.toml\")"⟩,
    ⟨text "db", .text ({ · with db := · }), "SQLite database path (overrides config)"⟩,
    ⟨text "disasm", .truth ({ · with disasm := · }),
      "Print the compiled instructions instead of running"⟩,
    ⟨text "e", .text ({ · with source := · }), "Execute Brainfuck source string"⟩,
    ⟨text "example", .text ({ · with sample := · }),
      "Run an embedded sample program (cat, fib, hello)"⟩,
    ⟨text "f", .text ({ · with file := · }), "Execute Brainfuck file"⟩,
    ⟨text "list", .truth ({ · with list := · }), "List stored and sample programs"⟩,
    ⟨text "run", .text ({ · with run := · }), "Run a stored program by name"⟩,
    ⟨text "save", .text ({ · with save := · }), "Store the program under this name"⟩,
    ⟨text "step", .truth ({ · with step := · }),
      "Step through the program one instruction at a time"⟩,
    ⟨text "strict", .truth ({ · with strict := · }), "Reject an unclosed '['"⟩,
    ⟨text "tape", .integer ({ · with tape := · }),
      "Memory tape size in cells (overrides config)"⟩,
    ⟨text "trace", .text ({ · with traceDir := · }), "Write a debug trace into this directory"⟩,
    ⟨text "v", .integer ({ · with verbosity := · }),
      "Log verbosity (overrides config) (default -1)"⟩]

/-- Why arguments were refused. -/
inductive FlagError where
  | undefined (name : Bytes)
  | missingValue (name : Bytes)
  | malformed (argument : Bytes)
  | badValue (name value : Bytes) (cause : Numeral.LiteralError)
  | badTruth (name value : Bytes)
  /-- The description of the flags was asked for. -/
  | help
  deriving DecidableEq, Repr

/-- The message of a flag error. -/
def FlagError.message : FlagError → Bytes
  | undefined name => text "flag provided but not defined: -" ++ name
  | missingValue name => text "flag needs an argument: -" ++ name
  | malformed argument => text "bad flag syntax: " ++ argument
  | badValue name value cause =>
    let reason := match cause with
      | .malformed => text "parse error"
      | .outOfRange => text "value out of range"
    text "invalid value " ++ quoted value ++ text " for flag -" ++ name ++ text ": " ++ reason
  | badTruth name value =>
    text "invalid boolean value " ++ quoted value ++ text " for -" ++ name ++
      text ": parse error"
  | help => text "flag: help requested"

/-- An argument taken apart. -/
inductive Argument where
  | flag (name : Bytes) (value : Option Bytes)
  /-- No flag, or the mark that ends them. -/
  | stop
  | malformed
  deriving DecidableEq, Repr

namespace Argument

/-- The byte that starts a flag. -/
def dash : UInt8 :=
  0x2D

/-- The byte between the name of a flag and its value. -/
def equals : UInt8 :=
  0x3D

/-- Takes apart a flag without its dashes. -/
def ofBody (body : Bytes) : Argument :=
  match body with
  | [] => malformed
  | b :: rest =>
    if b = dash || b = equals then malformed
    else
      let name := rest.takeWhile (· != equals)
      match rest.drop name.length with
      | [] => flag (b :: name) none
      | _ :: value => flag (b :: name) (some value)

/-- Takes apart an argument. -/
def ofText (argument : Bytes) : Argument :=
  match argument with
  | d :: rest =>
    if d != dash || rest.isEmpty || rest == [dash] then stop
    else if rest.head? == some dash then ofBody rest.tail
    else ofBody rest
  | [] => stop

end Argument

namespace Flags

/-- Sets a flag that takes a value. -/
def assign (f : Flags) (spec : FlagSpec) (value : Bytes) : Except FlagError Flags :=
  match spec.action with
  | .text set => .ok (set f value)
  | .integer set =>
    match Numeral.ofLiteral value with
    | .ok i => .ok (set f i)
    | .error cause => .error (.badValue spec.name value cause)
  | .truth set =>
    match Numeral.ofTruth? value with
    | some b => .ok (set f b)
    | none => .error (.badTruth spec.name value)

/-- The error of a flag that is not in the table. -/
def unknownFlag (name : Bytes) : FlagError :=
  if name == text "help" || name == text "h" then .help else .undefined name

/-- Takes in arguments from left to right. -/
def parseFrom (f : Flags) : List Bytes → Except FlagError Flags
  | [] => .ok f
  | argument :: rest =>
    match Argument.ofText argument with
    | .stop => .ok f
    | .malformed => .error (.malformed argument)
    | .flag name value =>
      match flagTable.find? (·.name == name) with
      | none => .error (unknownFlag name)
      | some spec =>
        match value, spec.action with
        | some value, _ =>
          match f.assign spec value with
          | .ok f => parseFrom f rest
          | .error e => .error e
        | none, .truth set => parseFrom (set f true) rest
        | none, _ =>
          match rest with
          | [] => .error (.missingValue name)
          | value :: rest =>
            match f.assign spec value with
            | .ok f => parseFrom f rest
            | .error e => .error e

/-- The flags of a list of arguments. -/
def parse (arguments : List Bytes) : Except FlagError Flags :=
  parseFrom {} arguments

/-- The word for what a flag takes. -/
def actionWord : FlagAction → Bytes
  | .text _ => text " string"
  | .integer _ => text " int"
  | .truth _ => []

/-- The description of a flag. -/
def specText (spec : FlagSpec) : Bytes :=
  text "  -" ++ spec.name ++ actionWord spec.action ++ text "\n    \t" ++
    text spec.description ++ text "\n"

/-- The text that describes all flags. -/
def usage : Bytes :=
  text "Usage of bf:\n" ++ flagTable.flatMap specText

/-- What a user sees when arguments are refused. -/
def complaint : FlagError → Bytes
  | .help => usage
  | e => e.message ++ text "\n" ++ usage

/-- A configuration with the flags on top. -/
def apply (f : Flags) (c : Config) : Config where
  tapeSize := if 0 < f.tape then f.tape else c.tapeSize
  traceDir := if f.traceDir.isEmpty then c.traceDir else f.traceDir
  db := if f.db.isEmpty then c.db else f.db
  verbosity := if 0 ≤ f.verbosity then f.verbosity else c.verbosity
  strictBrackets := f.strict || c.strictBrackets
  bench := if 0 < f.bench then { c.bench with iterations := f.bench } else c.bench

/-- Whether the flags ask for something that a store is needed for. -/
def needsStore (f : Flags) : Bool :=
  !f.db.isEmpty || !f.save.isEmpty || !f.run.isEmpty || f.list || decide (0 < f.bench)

end Flags

end Brainfuck
