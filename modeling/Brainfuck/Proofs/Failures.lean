import Brainfuck.Proofs.Adoption
import Brainfuck.Proofs.StoreCalls

/-!
# Failed calls on a database

A call on a database is a sequence of statements, and it fails at the first one that does. All calls
but one make a single change, after everything that can fail. Deleting a program makes two: if the
second one fails, the first one has happened.

## Main Definitions

* `Database.PreservedIn` — every table of one database is in another one
* `Database.LeftByFailure` — what a failed call leaves of a database

## Main Results

* `Database.leftByFailure_of_perform` — a failed call on a database
* `Database.preservedIn_adopt` — preparing a database, with success or not
* `failed_calls_spare_tables` — a failed call on a store, and a store that cannot be opened
* `failed_delete_loses_program` — a failed call can change a table
-/

namespace Brainfuck

theorem eq_error_of_map {α β ε : Type} {f : α → β} {r : Except ε α} {e : ε}
    (h : r.map f = .error e) : r = .error e := by
  cases r with
  | error e' =>
      cases h
      rfl
  | ok a => cases h

namespace Database

variable {db : Database}

/-- Every table of a database is in another one, with the same rows. -/
structure PreservedIn (db db' : Database) : Prop where
  programs : ∀ rows, db.programs = some rows → db'.programs = some rows
  history : ∀ table, db.history = some table → db'.history = some table
  metadata : ∀ rows, db.metadata = some rows → db'.metadata = some rows

/-- What a failed call leaves of a database: everything, unless it deletes a program and only the
table of runs is missing. -/
inductive LeftByFailure (db : Database) : StoreCall → Database → Prop where
  | all {call : StoreCall} : (∀ name, call = .delete name → db.programs = none) →
      LeftByFailure db call db
  | withoutProgram {t : TextTable} (name : Bytes) : db.programs = some t → db.history = none →
      LeftByFailure db (.delete name) { db with programs := some (t.remove name) }

/-! ### One call -/

theorem put_eq_error {name source : Bytes} {e : StoreError}
    (h : (db.put name source).1 = .error e) : (db.put name source).2 = db := by
  obtain ⟨programs, history, metadata⟩ := db
  cases programs with
  | none => rfl
  | some rows => cases h

theorem record_eq_error {run : Run} {now : Timestamp} {e : StoreError}
    (h : (db.record run now).1 = .error e) : (db.record run now).2 = db := by
  obtain ⟨programs, history, metadata⟩ := db
  cases history with
  | none => rfl
  | some table => cases h

/-- A program is deleted before its runs are. -/
theorem delete_eq_error {name : Bytes} {e : StoreError} (h : (db.delete name).1 = .error e) :
    db.LeftByFailure (.delete name) (db.delete name).2 := by
  obtain ⟨programs, history, metadata⟩ := db
  cases programs with
  | none => exact .all fun _ _ => rfl
  | some rows =>
      cases history with
      | none => exact .withoutProgram name rfl rfl
      | some table => cases h

/-- A failed call on a database. -/
theorem leftByFailure_of_perform {c : TimedCall} {e : StoreError}
    (h : (db.perform c).1 = .error e) : db.LeftByFailure c.call (db.perform c).2 := by
  obtain ⟨call, now⟩ := c
  cases call with
  | get name => exact .all nofun
  | names => exact .all nofun
  | runs name limit => exact .all nofun
  | put name source =>
      show db.LeftByFailure _ (db.put name source).2
      rw [put_eq_error (eq_error_of_map h)]
      exact .all nofun
  | delete name => exact delete_eq_error (eq_error_of_map h)
  | record run =>
      show db.LeftByFailure _ (db.record run now).2
      rw [record_eq_error (eq_error_of_map h)]
      exact .all nofun

/-! ### Preparing a database -/

theorem preservedIn_createTables (db : Database) : db.PreservedIn db.createTables := by
  constructor
  all_goals
    intro rows h
    simp [createTables, h]

/-- A database that has another version keeps its tables, and gets those that are missing. -/
theorem preservedIn_adopt {e : StoreError} (h : db.adopt.1 = .error e) :
    db.PreservedIn db.adopt.2 := by
  obtain ⟨-, hadopt⟩ | ⟨-, hadopt⟩ | ⟨v, -, -, -, hadopt⟩ := adopt_cases db
  · rw [hadopt] at h
    cases h
  · rw [hadopt]
    exact preservedIn_createTables db
  · rw [hadopt]
    exact preservedIn_createTables db

end Database

/-! ## Stores -/

/-- A store that cannot be opened: there is no database by the name that can be changed, or it has
another version. -/
theorem Store.openDatabase_eq_error {engine : Engine} {name : Bytes} {disk disk' : Disk}
    {e : StoreError} (h : openDatabase engine name disk = (.error e, disk')) :
    disk' = disk ∨ ∃ db, contentAt engine name disk = .ok db ∧ db.adopt.1 = .error e ∧
      contentAt engine name disk' = .ok db.adopt.2 := by
  cases hresolve : engine.resolve name with
  | scratch =>
      rw [openDatabase, hresolve] at h
      cases h
  | refused =>
      rw [openDatabase, hresolve] at h
      cases h
      exact .inl rfl
  | file path access =>
      cases access with
      | readOnly =>
          rw [openDatabase, hresolve] at h
          exact .inl (Prod.mk.inj h).2.symm
      | readWrite =>
          rw [openDatabase_of_file hresolve] at h
          rw [contentAt_of_file hresolve, contentAt_of_file hresolve]
          cases hdb : disk.database path with
          | error cause =>
              rw [openFile, hdb] at h
              cases h
              exact .inl rfl
          | ok found =>
              obtain ⟨l, db⟩ := found
              rw [openFile_of_database hdb] at h
              obtain ⟨hadopt, hdisk⟩ := Prod.mk.inj h
              refine .inr ⟨db, rfl, eq_error_of_map hadopt, ?_⟩
              rw [← hdisk, Disk.database_set hdb]
              rfl

/-- A call on a database that cannot be written changes nothing. -/
theorem Store.perform_readOnly (path : Bytes) (isOpen : Bool) (disk : Disk) (c : TimedCall) :
    ((readOnly path isOpen).perform disk c).2 = (readOnly path isOpen, disk) := by
  obtain ⟨call, now⟩ := c
  cases isOpen <;> cases call <;> rfl

/-- A failed call on an open store leaves every table as it was, except that a program whose runs
cannot be deleted is gone by itself; and one on a database that cannot be written leaves everything
as it was. A store that cannot be opened keeps all its tables. -/
theorem failed_calls_spare_tables :
    (∀ {s s' : Store} {disk disk' : Disk} {db : Database} {c : TimedCall} {e : StoreError},
      s.Holds disk db → s.perform disk c = (.error e, s', disk') →
      ∃ db', s'.Holds disk' db' ∧ db.LeftByFailure c.call db') ∧
    (∀ {path : Bytes} {disk : Disk} {c : TimedCall},
      ((Store.readOnly path true).perform disk c).2 = (Store.readOnly path true, disk)) ∧
    (∀ {engine : Engine} {name : Bytes} {disk disk' : Disk} {e : StoreError},
      Store.openDatabase engine name disk = (.error e, disk') →
      disk' = disk ∨ ∃ db db', Store.contentAt engine name disk = .ok db ∧
        Store.contentAt engine name disk' = .ok db' ∧ db.PreservedIn db') := by
  refine ⟨?_, Store.perform_readOnly _ true _ _, ?_⟩
  · intro s s' disk disk' db c e hholds hfails
    obtain ⟨s'', disk'', hperform, hholds'⟩ := hholds.perform c
    rw [hperform] at hfails
    obtain ⟨hanswer, hstore⟩ := Prod.mk.inj hfails
    obtain ⟨rfl, rfl⟩ := Prod.mk.inj hstore
    exact ⟨_, hholds', Database.leftByFailure_of_perform hanswer⟩
  · intro engine name disk disk' e hfails
    obtain hsame | ⟨db, hbefore, hadopt, hafter⟩ := Store.openDatabase_eq_error hfails
    · exact .inl hsame
    · exact .inr ⟨db, _, hbefore, hafter, Database.preservedIn_adopt hadopt⟩

/-- A database without a table of runs, and one that has another version and nothing else. -/
theorem failed_calls_spare_tables_of_partial :
    let programs : TextTable := { rows := [(text "a", text "+"), (text "b", text "-")] }
    let db : Database := { programs := some programs, metadata := some {} }
    let c : TimedCall := ⟨.delete (text "a"), ⟨2024, 2, 29, 12, 30, 0, 0, 0⟩⟩
    let old : Database := { metadata := some { rows := [(versionKey, text "0")] } }
    let disk : Disk := { nodes := [([text "old.db"], .database old)] }
    let content := Store.contentAt .standard (text "old.db")
    (∃ s' disk' db',
      (Store.scratch db true).perform {} c = (.error (.engine (.noSuchTable .runs)), s', disk') ∧
        s'.Holds disk' db' ∧ db.LeftByFailure c.call db') ∧
    ∃ disk', Store.openDatabase .standard (text "old.db") disk =
        (.error (.version (text "0")), disk') ∧
      (disk' = disk ∨ ∃ db db', content disk = .ok db ∧ content disk' = .ok db' ∧
        db.PreservedIn db') := by
  intro programs db c old disk content
  constructor
  · obtain ⟨db', hholds, hleft⟩ := failed_calls_spare_tables.1 (.scratch {} db) (c := c) rfl
    exact ⟨_, _, db', rfl, hholds, hleft⟩
  · exact ⟨_, rfl, failed_calls_spare_tables.2.2 rfl⟩

/-- A failed call can change a table: a program is gone although deleting it failed. -/
theorem failed_delete_loses_program :
    let db : Database :=
      { programs := some { rows := [(text "a", text "+")] },
        metadata := some { rows := [(versionKey, schemaVersion)] } }
    let db' : Database := { db with programs := some {} }
    let c : TimedCall := ⟨.delete (text "a"), ⟨2024, 2, 29, 12, 30, 0, 0, 0⟩⟩
    (Store.scratch db true).Holds {} db ∧
      (Store.scratch db true).perform {} c =
        (.error (.engine (.noSuchTable .runs)), .scratch db' true, {}) ∧
      (Store.scratch db' true).Holds {} db' ∧ ¬db.PreservedIn db' := by
  intro db db' c
  refine ⟨.scratch {} db, rfl, .scratch {} db', ?_⟩
  intro h
  cases h.programs _ rfl

end Brainfuck
