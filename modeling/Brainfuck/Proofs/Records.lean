import Brainfuck.Proofs.Adoption
import Brainfuck.Proofs.Agreement

/-!
# Recorded runs

A run that was recorded in a database is the newest run under its name, and it is read back as it
was. In between its time is a text, whose form is said here without the functions that write and
read it.

## Main Definitions

* `Digits` — a number in a fixed number of digits
* `Rfc3339.SpellsFraction`, `Rfc3339.SpellsOffset`, `Rfc3339.Spells` — the text of a fraction of a
  second, of an offset and of a timestamp

## Main Results

* `Rfc3339.spells_write` — the text of a timestamp has this form
* `Database.runs_record` — the newest run of a name is the one just recorded
* `Database.afterCalls_history` — no call loses the table of runs
* `recorded_run_is_read_back` — runs on open stores
-/

namespace Brainfuck

/-! ## The text of a timestamp -/

/-- A number in a fixed number of digits. -/
structure Digits (width n : Nat) (t : Bytes) : Prop where
  length_eq : t.length = width
  digits : ∀ b ∈ t, isDigit b = true
  value_eq : ofDecimal t = n

theorem digits_paddedDecimal {width n : Nat} (hwidth : 0 < width) (hn : n < 10 ^ width) :
    Digits width n (paddedDecimal width n) :=
  ⟨length_paddedDecimal hwidth hn, isDigit_of_mem_paddedDecimal, ofDecimal_paddedDecimal width n⟩

namespace Rfc3339

/-- The text of a fraction of a second in nanoseconds: nothing, or a point and up to nine digits, of
which the last one is not zero. -/
inductive SpellsFraction : Nat → Bytes → Prop where
  | none : SpellsFraction 0 []
  | some {t : Bytes} {zeros : Nat} : t ≠ [] → (∀ b ∈ t, isDigit b = true) →
      t.getLast? ≠ some 0x30 → t.length + zeros = 9 →
      SpellsFraction (ofDecimal t * 10 ^ zeros) (0x2E :: t)

/-- The text of an offset in minutes: a letter for universal time, and otherwise a sign with hours
and minutes. -/
inductive SpellsOffset : Int → Bytes → Prop where
  | universal : SpellsOffset 0 (text "Z")
  | ahead {hours minutes : Nat} {t u : Bytes} : Digits 2 hours t → Digits 2 minutes u →
      minutes < 60 → 0 < hours * 60 + minutes →
      SpellsOffset (hours * 60 + minutes : Nat) (text "+" ++ t ++ text ":" ++ u)
  | behind {hours minutes : Nat} {t u : Bytes} : Digits 2 hours t → Digits 2 minutes u →
      minutes < 60 → 0 < hours * 60 + minutes →
      SpellsOffset (-(hours * 60 + minutes : Nat)) (text "-" ++ t ++ text ":" ++ u)

/-- The text of a timestamp. -/
inductive Spells (time : Timestamp) : Bytes → Prop where
  | mk {year month day hour minute second fraction offset : Bytes} :
      Digits 4 time.year year → Digits 2 time.month month → Digits 2 time.day day →
      Digits 2 time.hour hour → Digits 2 time.minute minute → Digits 2 time.second second →
      SpellsFraction time.nanosecond fraction → SpellsOffset time.offset offset →
      Spells time (year ++ text "-" ++ month ++ text "-" ++ day ++ text "T" ++ hour ++ text ":" ++
        minute ++ text ":" ++ second ++ fraction ++ offset)

theorem spellsFraction_fractionText {n : Nat} (hn : n < 1000000000) :
    SpellsFraction n (fractionText 9 n) := by
  by_cases hzero : n = 0
  · subst hzero
    exact .none
  · obtain ⟨t, zeros, htext, hne, hdigits, hlength, rfl⟩ :=
      fractionText_eq (Nat.succ_pos 8) hn hzero
    have hlast := getLast?_fractionText_ne 9 (ofDecimal t * 10 ^ zeros)
    rw [htext, List.getLast?_cons_of_ne_nil hne] at hlast
    rw [htext]
    exact .some hne hdigits hlast hlength

theorem spellsOffset_writeOffset {offset : Int} (h : offset.natAbs < 1440) :
    SpellsOffset offset (writeOffset offset) := by
  have hhours : Digits 2 (offset.natAbs / 60) (paddedDecimal 2 (offset.natAbs / 60)) :=
    digits_paddedDecimal (by decide) (by omega)
  have hminutes : Digits 2 (offset.natAbs % 60) (paddedDecimal 2 (offset.natAbs % 60)) :=
    digits_paddedDecimal (by decide) (by omega)
  have hsize : offset.natAbs / 60 * 60 + offset.natAbs % 60 = offset.natAbs := by omega
  rcases Int.lt_trichotomy offset 0 with hneg | rfl | hpos
  · have hwrite : writeOffset offset = text "-" ++ paddedDecimal 2 (offset.natAbs / 60) ++
        text ":" ++ paddedDecimal 2 (offset.natAbs % 60) := by
      rw [writeOffset, if_neg (by omega), if_pos hneg]
    have hspells := SpellsOffset.behind hhours hminutes (by omega) (by omega)
    rw [hsize, show -(offset.natAbs : Int) = offset by omega] at hspells
    rwa [hwrite]
  · exact .universal
  · have hwrite : writeOffset offset = text "+" ++ paddedDecimal 2 (offset.natAbs / 60) ++
        text ":" ++ paddedDecimal 2 (offset.natAbs % 60) := by
      rw [writeOffset, if_neg (by omega), if_neg (by omega)]
    have hspells := SpellsOffset.ahead hhours hminutes (by omega) (by omega)
    rw [hsize, show (offset.natAbs : Int) = offset by omega] at hspells
    rwa [hwrite]

/-- The text that is written for a timestamp has the form of one. -/
theorem spells_write {t : Timestamp} (h : t.InCalendar) : Spells t (write t) := by
  have hmonth := h.month_le
  have hday := h.day_le
  have hdays := Timestamp.daysIn_le t.month t.year
  have hhour := h.hour_lt
  have hminute := h.minute_lt
  have hsecond := h.second_lt
  have htwo {n : Nat} (hn : n < 100) : Digits 2 n (paddedDecimal 2 n) :=
    digits_paddedDecimal (by decide) hn
  exact .mk (digits_paddedDecimal (by decide) h.year_lt) (htwo (by omega)) (htwo (by omega))
    (htwo (by omega)) (htwo (by omega)) (htwo (by omega))
    (spellsFraction_fractionText h.nanosecond_lt) (spellsOffset_writeOffset h.offset_lt)

end Rfc3339

/-! ## Databases -/

theorem Run.stamped_of_given {run : Run} (h : run.time.isZero = false) (now : Timestamp) :
    run.stamped now = run := by
  rw [stamped, h]
  rfl

theorem RunTable.getLast?_add (table : RunTable) (name : Bytes) (iterations elapsed output : Int64)
    (time : Bytes) :
    (table.add name iterations elapsed output time).rows.getLast? =
      some { id := table.lastId + 1, name, iterations, elapsed, output, time } :=
  List.getLast?_concat

namespace Database

variable {db : Database} {table : RunTable} {run : Run}

theorem record_of_given (htable : db.history = some table) (hgiven : run.time.isZero = false)
    (now : Timestamp) :
    db.record run now =
      (.ok (), { db with
        history := some (table.add run.name run.iterations run.elapsed run.output
          (Rfc3339.write run.time)) }) := by
  simp only [record, htable, require, Run.stamped_of_given hgiven]

/-- The newest run of a name is the one just recorded. -/
theorem runs_record (htable : db.history = some table) (htime : run.time.InCalendar)
    (hgiven : run.time.isZero = false) (now : Timestamp) :
    (db.record run now).2.runs run.name 1 = .ok [run] := by
  have hread := table.readUnder_add htime run.name
  rw [if_pos rfl] at hread
  rw [record_of_given htable hgiven]
  apply mapM_eq_ok
  rw [map_limited]
  exact congrArg (limited 1) hread

/-- A database is prepared with a table of runs. -/
theorem adopt_history (db : Database) : db.adopt.2.history ≠ none := by
  obtain ⟨-, hadopt⟩ | ⟨-, hadopt⟩ | ⟨v, -, -, -, hadopt⟩ := adopt_cases db
  all_goals
    rw [hadopt]
    exact Option.some_ne_none _

/-- No call loses the table of runs. -/
theorem perform_history (h : db.history ≠ none) (c : TimedCall) :
    (db.perform c).2.history ≠ none := by
  obtain ⟨programs, history, metadata⟩ := db
  obtain ⟨call, now⟩ := c
  cases history with
  | none => exact absurd rfl h
  | some table =>
      cases call with
      | get | names | runs => exact h
      | put | delete => cases programs <;> exact Option.some_ne_none _
      | record => exact Option.some_ne_none _

theorem afterCalls_history (h : db.history ≠ none) (calls : List TimedCall) :
    (db.afterCalls calls).history ≠ none := by
  induction calls generalizing db with
  | nil => exact h
  | cons c calls ih => exact ih (perform_history h c)

end Database

/-! ## Stores -/

/-- A store that was opened and can be written holds a database with a table of runs. -/
theorem Store.exists_holds_of_open {engine : Engine} {name : Bytes} {disk disk' : Disk}
    {store : Store} (hwritable : ∀ path, engine.resolve name ≠ .file path .readOnly)
    (h : openDatabase engine name disk = (.ok store, disk')) :
    ∃ db, store.Holds disk' db ∧ db.history ≠ none := by
  obtain ⟨-, rfl, -⟩ | ⟨path, -, rfl, l, db, hdb, -, rfl⟩ | ⟨path, hpath, -⟩ :=
    openDatabase_cases h
  · exact ⟨_, .scratch disk' _, Database.empty.adopt_history⟩
  · exact ⟨_, .database (Disk.database_set hdb _), db.adopt_history⟩
  · exact absurd hpath (hwritable path)

/-- **A recorded run is read back.** Take a run at a time of the calendar that is not the one for
"none", with any name and counts. If an open store on a database records it, then the newest run
under its name is this run, with the same counts and time, and the database has kept the time as a
text of the usual form. A store that was opened records it, after any calls, unless its database is
in a file that cannot be written. -/
theorem recorded_run_is_read_back {run : Run} (htime : run.time.InCalendar)
    (hgiven : run.time.isZero = false) (now : Timestamp) :
    (∀ {store store' : Store} {disk disk' : Disk} {db : Database}, store.Holds disk db →
      store.record disk run now = (.ok (), store', disk') →
        store'.runs disk' run.name 1 = .ok [run] ∧
        ∃ db' table row, store'.Holds disk' db' ∧ db'.history = some table ∧
          table.rows.getLast? = some row ∧ row.name = run.name ∧
          Rfc3339.Spells run.time row.time) ∧
    ∀ {engine : Engine} {name : Bytes} {disk disk' : Disk} {store : Store},
      (∀ path, engine.resolve name ≠ .file path .readOnly) →
      Store.openDatabase engine name disk = (.ok store, disk') →
      ∀ calls : List TimedCall, ∃ store' disk'',
        (store.afterCalls disk' calls).1.record (store.afterCalls disk' calls).2 run now =
          (.ok (), store', disk'') := by
  refine ⟨?_, ?_⟩
  · intro store store' disk disk' db hholds hrecord
    obtain ⟨s, disk₁, hchange, hholds'⟩ := hholds.change (·.record run now) (·.record run now)
    rw [Store.record, hchange] at hrecord
    obtain ⟨hok, hstore⟩ := Prod.mk.inj hrecord
    obtain ⟨rfl, rfl⟩ := Prod.mk.inj hstore
    cases htable : db.history with
    | none =>
        rw [Database.record, htable] at hok
        cases hok
    | some table =>
        have hhistory := congrArg (·.2.history) (Database.record_of_given htable hgiven now)
        refine ⟨?_, _, _, _, hholds', hhistory, table.getLast?_add _ _ _ _ _, rfl,
          Rfc3339.spells_write htime⟩
        rw [Store.runs, hholds'.query, Database.runs_record htable htime hgiven]
  · intro engine name disk disk' store hwritable hopen calls
    obtain ⟨db, hholds, hhistory⟩ := Store.exists_holds_of_open hwritable hopen
    have hafter := hholds.afterCalls calls
    obtain ⟨s, disk₁, hchange, -⟩ := hafter.change (·.record run now) (·.record run now)
    obtain ⟨table, htable⟩ :=
      Option.ne_none_iff_exists'.mp (Database.afterCalls_history hhistory calls)
    refine ⟨s, disk₁, ?_⟩
    rw [Store.record, hchange, Database.record_of_given htable hgiven]

/-- A run on the leap day of year zero, almost a day behind universal time, in a database that has
an unreadable row under the same name, and in a new one. -/
theorem recorded_run_is_read_back_on_leap_day :
    let time : Timestamp := ⟨0, 2, 29, 23, 59, 59, 120000000, -1439⟩
    let run : Run := ⟨text "cat", -3, 60, 8, time⟩
    let old : RunRow := ⟨7, text "cat", 1, 1, 1, text "long ago"⟩
    let db : Database := { history := some { rows := [old], lastId := 7 } }
    time.InCalendar ∧ time.isZero = false ∧
      (∃ store', (Store.scratch db true).record {} run .zero = (.ok (), store', {}) ∧
        store'.runs {} (text "cat") 1 = .ok [run]) ∧
      ∃ store disk', Store.openDatabase .standard (text "runs.db") {} = (.ok store, disk') ∧
        ∃ store' disk'', store.record disk' run .zero = (.ok (), store', disk'') := by
  intro time run old db
  have htime : time.InCalendar := by constructor <;> decide
  have hgiven : time.isZero = false := by decide
  obtain ⟨hread, hrecord⟩ :=
    recorded_run_is_read_back (show run.time.InCalendar from htime) hgiven .zero
  obtain ⟨store, disk', hopen⟩ : ∃ store disk',
      Store.openDatabase .standard (text "runs.db") {} = (.ok store, disk') := ⟨_, _, rfl⟩
  have hwritable : ∀ path, Engine.standard.resolve (text "runs.db") ≠ .file path .readOnly := by
    have hfile : Engine.standard.resolve (text "runs.db") = .file (text "runs.db") .readWrite := by
      decide
    simp [hfile]
  exact ⟨htime, hgiven, ⟨_, rfl, (hread (.scratch {} db) rfl).1⟩, store, disk', hopen,
    hrecord hwritable hopen []⟩

end Brainfuck
