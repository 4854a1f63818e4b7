import Brainfuck.Disk
import Brainfuck.Toml.Document

/-!
# Configuration

The settings that a configuration file can change.

## Main Definitions

* `Config` — the settings
* `Config.validate` — whether the settings are in range
* `Config.ofDocument` — the settings of a document, on top of the defaults
* `Config.load` — the settings of a file
-/

namespace Brainfuck

/-- The settings of benchmarks. -/
structure BenchConfig where
  iterations : Int := 1000
  outputCapacity : Int := 131072
  deriving DecidableEq, Repr

/-- The settings. -/
structure Config where
  tapeSize : Int := 30000
  traceDir : Bytes := []
  db : Bytes := text "bf.db"
  verbosity : Int := 0
  strictBrackets : Bool := false
  bench : BenchConfig := {}
  deriving DecidableEq, Repr

/-- A setting that is out of range. -/
inductive SettingError where
  | tapeSize (found : Int)
  | iterations (found : Int)
  | outputCapacity (found : Int)
  deriving DecidableEq, Repr

/-- The message of a setting error. -/
def SettingError.message : SettingError → Bytes
  | tapeSize found => text "tape_size must be positive, got " ++ signed found
  | iterations found => text "bench.iterations must be positive, got " ++ signed found
  | outputCapacity found =>
    text "bench.output_capacity must not be negative, got " ++ signed found

/-- Why a configuration cannot be used. -/
inductive ConfigError where
  | unreadable (path : Bytes) (cause : DiskError)
  | document (path : Bytes) (cause : Toml.DocumentError)
  | unknownKey (path : Bytes) (key : Toml.Key)
  | setting (cause : SettingError)
  deriving DecidableEq, Repr

/-- The message of a configuration error. -/
def ConfigError.message : ConfigError → Bytes
  | unreadable path cause => text "config " ++ path ++ text ": " ++ cause.message
  | document path cause => text "config " ++ path ++ text ": " ++ cause.message
  | unknownKey path key => text "config " ++ path ++ text ": unknown key " ++ key.toText
  | setting cause => cause.message

/-- A text with letters that differ only in case made equal. Two letters outside ASCII have an
ASCII letter as their other case: the long s and the Kelvin sign. -/
def foldCase : Bytes → Bytes
  | [] => []
  | 0xC5 :: 0xBF :: rest => 0x73 :: foldCase rest
  | 0xE2 :: 0x84 :: 0xAA :: rest => 0x6B :: foldCase rest
  | b :: rest => (if 0x41 ≤ b && b ≤ 0x5A then b + 0x20 else b) :: foldCase rest

namespace Config

/-- Checks that the settings are in range. -/
def validate (c : Config) : Except SettingError Unit :=
  if c.tapeSize ≤ 0 then .error (.tapeSize c.tapeSize)
  else if c.bench.iterations ≤ 0 then .error (.iterations c.bench.iterations)
  else if c.bench.outputCapacity < 0 then .error (.outputCapacity c.bench.outputCapacity)
  else .ok ()

/-- What a key of a table does: nothing if it is unknown, and otherwise it takes a value, if that
has the right type. -/
abbrev Setter (α : Type) := Option (Toml.Value → Option α)

/-- Takes an integer. -/
def setInteger {α : Type} (set : Int → α) : Setter α :=
  some fun
    | .integer i => some (set i)
    | _ => none

/-- Takes a text. -/
def setText {α : Type} (set : Bytes → α) : Setter α :=
  some fun
    | .text t => some (set t)
    | _ => none

/-- Takes a truth value. -/
def setTruth {α : Type} (set : Bool → α) : Setter α :=
  some fun
    | .truth b => some (set b)
    | _ => none

/-- Takes in the entries of a table below a path. Gives the settings and the keys it used. -/
def decodeTable {α : Type} (path : Toml.Key) (setter : α → Bytes → Setter α)
    (start : α) (table : Toml.Table) : Except Toml.DocumentError (α × List Toml.Key) :=
  table.entries.foldlM
    (fun (settings, used) (key, value) =>
      match setter settings (foldCase key) with
      | none => .ok (settings, used)
      | some set =>
        match set value with
        | some settings => .ok (settings, (path ++ [key]) :: used)
        | none => .error (.wrongType (path ++ [key])))
    (start, [])

/-- The effect of a key of the table of benchmark settings. -/
def benchSetter (c : BenchConfig) (key : Bytes) : Setter BenchConfig :=
  if key == text "iterations" then setInteger ({ c with iterations := · })
  else if key == text "output_capacity" then setInteger ({ c with outputCapacity := · })
  else none

/-- The effect of a key of the outermost table other than that of the benchmark settings. -/
def setter (c : Config) (key : Bytes) : Setter Config :=
  if key == text "tape_size" then setInteger ({ c with tapeSize := · })
  else if key == text "trace_dir" then setText ({ c with traceDir := · })
  else if key == text "db" then setText ({ c with db := · })
  else if key == text "verbosity" then setInteger ({ c with verbosity := · })
  else if key == text "strict_brackets" then setTruth ({ c with strictBrackets := · })
  else none

/-- Whether a key names the table of benchmark settings. -/
def isBenchKey (key : Bytes) : Bool :=
  foldCase key == text "bench"

/-- Takes in an entry that may be the table of benchmark settings. -/
def decodeBench (c : Config) (used : List Toml.Key) (entry : Bytes × Toml.Value) :
    Except Toml.DocumentError (Config × List Toml.Key) :=
  if !isBenchKey entry.1 then .ok (c, used)
  else match entry.2 with
    | .table table => do
      let (bench, inner) ← decodeTable [entry.1] benchSetter c.bench table
      .ok ({ c with bench }, [entry.1] :: inner ++ used)
    | _ => .error (.wrongType [entry.1])

/-- The settings of a document on top of the defaults, and the first key that names none. -/
def ofDocument (d : Toml.Document) : Except Toml.DocumentError (Config × Option Toml.Key) := do
  let (c, used) ← decodeTable [] setter {} d.root
  let (c, used) ← d.root.entries.foldlM (fun (c, used) entry => decodeBench c used entry) (c, used)
  .ok (c, d.keys.find? fun key => !used.contains key)

/-- Reads the settings of a text that comes from a path. -/
def ofText (path content : Bytes) : Except ConfigError Config :=
  match Toml.Document.read content >>= ofDocument with
  | .error cause => .error (.document path cause)
  | .ok (_, some key) => .error (.unknownKey path key)
  | .ok (c, none) =>
    match c.validate with
    | .ok () => .ok c
    | .error cause => .error (.setting cause)

/-- Loads the settings of a file. Without a path or a file they are the defaults. -/
def load (path : Bytes) (disk : Disk) : Except ConfigError Config :=
  if path.isEmpty then .ok {}
  else match disk.read path with
    | .ok content => ofText path content
    | .error cause =>
      if cause.reason = .notFound then .ok {} else .error (.unreadable path cause)

end Config

end Brainfuck
