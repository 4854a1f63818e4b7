import Brainfuck.Bytes

/-!
# Paths

Paths with elements separated by slashes, as text.

## Main Definitions

* `Path.elements` — the texts between the slashes of a path
* `Path.clean` — the shortest path with the same meaning
* `Path.join` — a path below a directory
-/

namespace Brainfuck.Path

/-- The byte between the elements of a path. -/
def slash : UInt8 :=
  0x2F

/-- The element that stands for the directory itself. -/
def self : Bytes :=
  [0x2E]

/-- The element that stands for the directory above. -/
def above : Bytes :=
  [0x2E, 0x2E]

/-- The texts between the slashes of a path. -/
def elements (p : Bytes) : List Bytes :=
  pieces slash p

/-- Whether a path starts at the root. -/
def isRooted (p : Bytes) : Bool :=
  p.head? == some slash

/-- Adds an element to the cleaned elements before it, which come last first. -/
def push (rooted : Bool) (done : List Bytes) (e : Bytes) : List Bytes :=
  if e.isEmpty || e == self then done
  else if e == above then
    match done with
    | [] => if rooted then [] else [above]
    | last :: rest => if last == above then above :: done else rest
  else e :: done

/-- Joins elements by slashes. -/
def joinElements (es : List Bytes) : Bytes :=
  [slash].intercalate es

/-- The shortest path with the same meaning: no empty element, no `.`, and `..` only at the start
of a path that is not rooted. -/
def clean (p : Bytes) : Bytes :=
  let rooted := isRooted p
  let path := joinElements ((elements p).foldl (push rooted) []).reverse
  if rooted then slash :: path
  else if path.isEmpty then self
  else path

/-- The cleaned path of `name` below the directory `dir`. An empty directory adds nothing. -/
def join (dir name : Bytes) : Bytes :=
  if dir.isEmpty then (if name.isEmpty then [] else clean name)
  else if name.isEmpty then clean dir
  else clean (dir ++ slash :: name)

end Brainfuck.Path
