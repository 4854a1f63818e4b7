import Brainfuck.Bytes

/-!
# Ages

How long ago something happened, in words.

## Main Definitions

* `AgeStep` — a range of ages and its words
* `ageText` — the words for an age
-/

namespace Brainfuck

/-- The words for all ages below a bound, in nanoseconds. `unit` is what a count counts, if the
words have one. -/
structure AgeStep where
  below : Nat
  unit : Option Nat
  words : String

/-- A day in nanoseconds. -/
def dayLength : Nat :=
  86400000000000

/-- A second in nanoseconds. -/
def secondLength : Nat :=
  1000000000

/-- The ranges of ages in increasing order. A month has thirty days and a year twelve months. -/
def ageSteps : List AgeStep :=
  [⟨2 * secondLength, none, "1 second"⟩,
    ⟨60 * secondLength, some secondLength, " seconds"⟩,
    ⟨120 * secondLength, none, "1 minute"⟩,
    ⟨3600 * secondLength, some (60 * secondLength), " minutes"⟩,
    ⟨7200 * secondLength, none, "1 hour"⟩,
    ⟨dayLength, some (3600 * secondLength), " hours"⟩,
    ⟨2 * dayLength, none, "1 day"⟩,
    ⟨7 * dayLength, some dayLength, " days"⟩,
    ⟨14 * dayLength, none, "1 week"⟩,
    ⟨30 * dayLength, some (7 * dayLength), " weeks"⟩,
    ⟨60 * dayLength, none, "1 month"⟩,
    ⟨360 * dayLength, some (30 * dayLength), " months"⟩,
    ⟨540 * dayLength, none, "1 year"⟩,
    ⟨720 * dayLength, none, "2 years"⟩,
    ⟨37 * 360 * dayLength, some (360 * dayLength), " years"⟩]

/-- The words for a length of time of at least one second. -/
def ageWords (size : Nat) : Bytes :=
  match ageSteps.find? fun s => decide (size < s.below) with
  | none => text "a long while"
  | some ⟨_, none, words⟩ => text words
  | some ⟨_, some unit, words⟩ => decimal (size / unit) ++ text words

/-- The words for something that happened `age` nanoseconds ago; a negative age lies ahead. -/
def ageText (age : Int) : Bytes :=
  let size := age.natAbs
  if size < secondLength then text "now"
  else ageWords size ++ if age < 0 then text " from now" else text " ago"

end Brainfuck
