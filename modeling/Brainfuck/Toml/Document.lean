import Brainfuck.Toml.Statement

/-!
# Documents

A TOML document as a tree of tables, with its keys in the order in which they are written.

## Main Definitions

* `Value`, `Table` — the values and the tables of a tree
* `Builder` — a document while its statements are taken in
* `Document.read` — the document that a text denotes

## Design Notes

The keys of a table are kept apart from its values, with a proof that no two of them are equal. A
list of pairs could not carry that proof, since values nest.

A key names one value. Two things may be named again: a table that so far came about only as the
parent of another key, which its header or a further key completes, and an array that is still
being written. The builder keeps the paths of both kinds. These paths do not tell the elements of
an array of tables apart.
-/

namespace Brainfuck.Toml

mutual

/-- A value of a document. -/
inductive Value where
  | text (value : Bytes)
  | integer (value : Int)
  | truth (value : Bool)
  | float (spelling : Bytes)
  | moment (spelling : Bytes)
  | array (items : List Value)
  | table (table : Table)
  /-- An array of tables, which has at least one element. The last element comes first. -/
  | tables (last : Table) (others : List Table)

/-- A table: its keys in order, of which no two are equal, and a value for each of them. -/
inductive Table where
  | mk (keys : List Bytes) (nodup : keys.Nodup) (value : { key // key ∈ keys } → Value)

end

namespace Table

/-- A table without keys. -/
def empty : Table :=
  .mk [] List.nodup_nil fun key => absurd key.2 List.not_mem_nil

/-- The value of a key. -/
def lookup (t : Table) (key : Bytes) : Option Value :=
  match t with
  | .mk keys _ value => if h : key ∈ keys then some (value ⟨key, h⟩) else none

/-- The keys and their values in order. -/
def entries (t : Table) : List (Bytes × Value) :=
  match t with
  | .mk keys _ value => keys.attach.map fun key => (key.1, value key)

/-- Sets the value of a key, in place if the key exists. -/
def set (t : Table) (key : Bytes) (new : Value) : Table :=
  match t with
  | .mk keys nodup value =>
    if h : key ∈ keys then .mk keys nodup fun k => if k.1 = key then new else value k
    else
      .mk (keys ++ [key]) (nodup_append_key nodup h) fun k =>
        if hk : k.1 ∈ keys then value ⟨k.1, hk⟩ else new

/-- Changes the table at a path. An array of tables on the way stands for its last element. A
missing table is made if `make` says so. -/
def modifyAt (make : Bool) (change : Table → Option Table) : Key → Table → Option Table
  | [], t => change t
  | key :: path, t =>
    match t.lookup key with
    | none => if make then (modifyAt make change path empty).map (t.set key <| .table ·) else none
    | some (.table inner) => (modifyAt make change path inner).map (t.set key <| .table ·)
    | some (.tables last others) =>
      (modifyAt make change path last).map fun last => t.set key (.tables last others)
    | some _ => none

/-- The table at a path. An array of tables on the way stands for its last element. -/
def at? : Key → Table → Option Table
  | [], t => some t
  | key :: path, t =>
    match t.lookup key with
    | some (.table inner) => at? path inner
    | some (.tables last _) => at? path last
    | _ => none

end Table

/-- A document while its statements are taken in. -/
structure Builder where
  root : Table := .empty
  /-- The table that entries go into. -/
  context : Key := []
  /-- The paths of tables that no header or value has named yet. -/
  implicit : List Key := []
  /-- The paths of plain arrays. -/
  arrays : List Key := []
  /-- The keys as written, last one first. -/
  written : List Key := []

namespace Builder

/-- Says that the table at a path came about as a parent only. -/
def addImplicit (b : Builder) (path : Key) : Builder :=
  if b.implicit.contains path then b else { b with implicit := path :: b.implicit }

/-- Says that the table at a path has been named. -/
def removeImplicit (b : Builder) (path : Key) : Builder :=
  { b with implicit := b.implicit.filter (· != path) }

/-- Says whether a key of the context is a plain array. An empty key stands for the context. -/
def markArray (b : Builder) (key : Bytes) (isArray : Bool) : Builder :=
  let path := if key.isEmpty then b.context else b.context ++ [key]
  let path := if path.isEmpty then [[]] else path
  let arrays := b.arrays.filter (· != path)
  { b with arrays := if isArray then path :: arrays else arrays }

/-- Sets a key of the context. -/
def set (b : Builder) (key : Bytes) (value : Value) : Option Builder := do
  let path := b.context ++ [key]
  let table ← b.root.at? b.context
  let write (b : Builder) : Option Builder := do
    let root ← b.root.modifyAt false (fun t => some (t.set key value)) b.context
    some { b with root }
  if (table.lookup key).isNone then write b
  else if !b.implicit.contains path then none
  else if b.arrays.contains path then write (b.removeImplicit path)
  else some (b.removeImplicit path)

/-- Makes the missing tables above a path, whose paths are counted from `done`. -/
def addParents (b : Builder) (done : Key) : Key → Option Builder
  | [] => some b
  | [_] => some b
  | part :: rest => do
    let path := done ++ [part]
    let table ← b.root.at? done
    let b ← if (table.lookup part).isSome then some b
      else do
        let root ← b.root.modifyAt true some path
        some (addImplicit { b with root } path)
    addParents b path rest

/-- Adds an element to the array of tables at a key. -/
def pushElement (key : Bytes) (t : Table) : Option Table :=
  match t.lookup key with
  | none => some (t.set key (.tables .empty []))
  | some (.tables last others) => some (t.set key (.tables .empty (last :: others)))
  | some _ => none

/-- Enters the table at a path, as a new element of an array of tables if `element` says so. -/
def enter (b : Builder) (path : Key) (element : Bool) : Option Builder := do
  let b ← b.addParents [] path
  let parent := path.dropLast
  let key := path.getLast?.getD []
  let b ←
    if element then do
      let root ← b.root.modifyAt false (pushElement key) parent
      some { b with root }
    else Builder.set { b with context := parent } key (.table .empty)
  some { b with context := path }

/-- Enters the tables that the parts of a dotted key before the last one name. -/
def enterParents (b : Builder) : Key → Option Builder
  | [] => some b
  | [_] => some b
  | part :: rest => do
    let path := b.context ++ [part]
    let b ← (b.addImplicit path).enter path false
    enterParents b rest

/-- Notes a key as written. -/
def write (b : Builder) (key : Key) : Builder :=
  { b with written := key :: b.written }

mutual

/-- Takes in a value for a key of the context. `inArray` says whether it is an item of an array
there. -/
def take (b : Builder) (key : Bytes) (inArray : Bool) : Literal → Option (Value × Builder)
  | .text value => some (.text value, b)
  | .integer value => some (.integer value, b)
  | .truth value => some (.truth value, b)
  | .float spelling => some (.float spelling, b)
  | .moment spelling => some (.moment spelling, b)
  | .array items => takeItems (b.markArray key true) key items
  | .inline pairs => do
    let outer := b.context
    let path := outer ++ [key]
    let b ← (b.addImplicit path).enter path inArray
    let b ← takePairs b pairs
    let table ← b.root.at? path
    some (.table table, { b with context := outer })

/-- Takes in the items of an array. -/
def takeItems (b : Builder) (key : Bytes) : List Literal → Option (Value × Builder)
  | [] => some (.array [], b)
  | item :: items => do
    let (value, b) ← take b key true item
    let (rest, b) ← takeItems b key items
    match rest with
    | .array values => some (.array (value :: values), b)
    | rest => some (rest, b)

/-- Takes in the entries of an inline table. -/
def takePairs (b : Builder) : List (Key × Literal) → Option Builder
  | [] => some b
  | pair :: pairs => do
    let b ← takePair b pair
    takePairs b pairs

/-- Takes in one entry, and comes back to the context. -/
def takePair (b : Builder) : Key × Literal → Option Builder
  | (key, literal) => do
    let outer := b.context
    let b ← b.enterParents key
    let last := key.getLast?.getD []
    let b := b.write (b.context ++ [last])
    let (value, b) ← take b last false literal
    let b ← b.set last value
    let b := b.markArray last (match value with | .array _ => true | _ => false)
    some { b with context := outer }

end

/-- Takes in a statement. -/
def accept (b : Builder) : Statement → Option Builder
  | .table key => do
    let b ← b.enter key false
    some ((b.markArray [] false).write key)
  | .element key => do
    let b ← b.enter key true
    some ((b.markArray [] false).write key)
  | .entry key value => takePair b (key, value)

end Builder

/-- A document. -/
structure Document where
  root : Table
  /-- The keys in the order in which they are written. -/
  keys : List Key

/-- Why a text is no document that can be used. -/
inductive DocumentError where
  /-- The text is not well formed. -/
  | malformed
  /-- A key is used for two things. -/
  | conflict
  /-- The value of a key has the wrong type. -/
  | wrongType (key : Key)
  deriving DecidableEq, Repr

/-- The message of a document error. -/
def DocumentError.message : DocumentError → Bytes
  | malformed => Brainfuck.text "malformed document"
  | conflict => Brainfuck.text "conflicting keys"
  | wrongType key => Brainfuck.text "wrong type of value for key " ++ key.toText

/-- A text without a byte order mark at its head. -/
def dropOrderMark : Bytes → Bytes
  | 0xFE :: 0xFF :: rest => rest
  | 0xFF :: 0xFE :: rest => rest
  | 0xEF :: 0xBB :: 0xBF :: rest => rest
  | t => t

/-- The document that a text denotes. -/
def Document.read (t : Bytes) : Except DocumentError Document :=
  let t := dropOrderMark t
  match if isCleanText t then statements? t else none with
  | none => .error .malformed
  | some statements =>
    match statements.foldlM Builder.accept ({} : Builder) with
    | none => .error .conflict
    | some b => .ok { root := b.root, keys := b.written.reverse }

end Brainfuck.Toml
