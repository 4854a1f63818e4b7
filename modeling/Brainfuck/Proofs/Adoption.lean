import Brainfuck.Proofs.Stores
import Brainfuck.Proofs.Tables

/-!
# Adopting a database

A database that is opened gets the tables that it lacks, and a version if it has none. One that has
another version is refused. Nothing that was there is lost, and opening it once more changes
nothing.

## Main Definitions

* `Database.storedVersion?` — the version that a database says it has
* `Database.IsAdoptionOf` — what opening makes of a database
* `Database.Adopted` — a database that needs no preparation

## Main Results

* `Database.adopt_cases` — the three ways in which preparing a database can go
* `Database.isAdoptionOf_adopt` — what was there is still there
* `Database.Adopted.adopt_eq` — preparing an adopted database changes nothing
* `opening_adopts_database` — the same for a database that is opened by its path
-/

namespace Brainfuck

namespace Database

variable {db : Database}

/-! ## One database -/

/-- The version that a database says it has. -/
def storedVersion? (db : Database) : Option Bytes :=
  db.metadata.bind (·.lookup versionKey)

/-- A database is one that was opened, and apart from missing tables and the version it is as it was
before. -/
structure IsAdoptionOf (db' db : Database) : Prop where
  programs : db'.programs = some (db.programs.getD {})
  history : db'.history = some (db.history.getD {})
  version : db'.storedVersion? = some schemaVersion
  metadata : ∃ t, db'.metadata = some t ∧
    ∀ key, key ≠ versionKey → t.lookup key = (db.metadata.getD {}).lookup key

theorem lookup_getD_metadata (db : Database) :
    (db.metadata.getD {}).lookup versionKey = db.storedVersion? := by
  unfold storedVersion?
  cases db.metadata <;> rfl

/-- Preparing a database: it has no version, the known one or another one. -/
theorem adopt_cases (db : Database) :
    ((db.storedVersion? = none ∨ db.storedVersion? = some []) ∧
      db.adopt = (.ok (), { db.createTables with
        metadata := some ((db.metadata.getD {}).set versionKey schemaVersion) })) ∨
    (db.storedVersion? = some schemaVersion ∧ db.adopt = (.ok (), db.createTables)) ∨
    ∃ v, db.storedVersion? = some v ∧ v ≠ [] ∧ v ≠ schemaVersion ∧
      db.adopt = (.error (.version v), db.createTables) := by
  have hadopt : db.adopt =
      if (db.storedVersion?.getD []).isEmpty then
        (.ok (), { db.createTables with
          metadata := some ((db.metadata.getD {}).set versionKey schemaVersion) })
      else if db.storedVersion?.getD [] == schemaVersion then (.ok (), db.createTables)
      else (.error (.version (db.storedVersion?.getD [])), db.createTables) := by
    rw [← lookup_getD_metadata]
    rfl
  rw [hadopt]
  cases hversion : db.storedVersion? with
  | none => exact .inl ⟨.inl rfl, rfl⟩
  | some v =>
      rw [Option.getD_some]
      by_cases hempty : v = []
      · subst hempty
        exact .inl ⟨.inr rfl, rfl⟩
      · rw [if_neg (by simpa using hempty)]
        by_cases hknown : v = schemaVersion
        · subst hknown
          exact .inr (.inl ⟨rfl, by rw [if_pos (beq_self_eq_true _)]⟩)
        · exact .inr (.inr ⟨v, rfl, hempty, hknown, by rw [if_neg (by simpa using hknown)]⟩)

/-- A database is accepted if it has no version or the known one. -/
theorem adopt_eq_ok_iff :
    db.adopt.1 = .ok () ↔ db.storedVersion? = none ∨ db.storedVersion? = some [] ∨
      db.storedVersion? = some schemaVersion := by
  obtain ⟨hnone, hadopt⟩ | ⟨hknown, hadopt⟩ | ⟨v, hv, hempty, hother, hadopt⟩ := adopt_cases db
  · simp [hadopt, ← or_assoc, hnone]
  · simp [hadopt, hknown]
  · simp [hadopt, hv, hempty, hother]

/-- Nothing is lost in a database that is accepted. -/
theorem isAdoptionOf_adopt (h : db.adopt.1 = .ok ()) : db.adopt.2.IsAdoptionOf db := by
  obtain ⟨-, hadopt⟩ | ⟨hknown, hadopt⟩ | ⟨v, -, -, -, hadopt⟩ := adopt_cases db
  · rw [hadopt]
    refine ⟨rfl, rfl, ?_, _, rfl, ?_⟩
    · show KeyTable.lookup (KeyTable.set _ versionKey schemaVersion) versionKey = _
      rw [KeyTable.lookup_set, if_pos rfl]
    · intro key hkey
      rw [KeyTable.lookup_set, if_neg hkey]
  · rw [hadopt]
    refine ⟨rfl, rfl, ?_, _, rfl, fun _ _ => rfl⟩
    rw [← hknown, ← lookup_getD_metadata db]
    rfl
  · rw [hadopt] at h
    cases h

/-! ## Databases that need no preparation -/

/-- All tables exist, and the version is the known one. -/
structure Adopted (db : Database) : Prop where
  programs : ∃ t, db.programs = some t
  history : ∃ t, db.history = some t
  metadata : ∃ t, db.metadata = some t ∧ t.lookup versionKey = some schemaVersion

theorem IsAdoptionOf.adopted {db' : Database} (h : db'.IsAdoptionOf db) : db'.Adopted := by
  obtain ⟨t, ht, -⟩ := h.metadata
  have hversion := h.version
  rw [storedVersion?, ht] at hversion
  exact ⟨⟨_, h.programs⟩, ⟨_, h.history⟩, t, ht, hversion⟩

theorem adopted_of_adopt (h : db.adopt.1 = .ok ()) : db.adopt.2.Adopted :=
  (isAdoptionOf_adopt h).adopted

namespace Adopted

theorem ne_empty (h : db.Adopted) : db ≠ empty := by
  rintro rfl
  obtain ⟨t, ht⟩ := h.programs
  cases ht

/-- Preparing an adopted database changes nothing. -/
theorem adopt_eq (h : db.Adopted) : db.adopt = (.ok (), db) := by
  obtain ⟨⟨programs, hprograms⟩, ⟨history, hhistory⟩, metadata, hmetadata, hversion⟩ := h
  obtain ⟨_, _, _⟩ := db
  cases hprograms
  cases hhistory
  cases hmetadata
  simp only [adopt, createTables, Option.getD_some, hversion]
  rw [if_neg (by decide), if_pos (by decide)]

/-- Putting a program into an adopted database succeeds, and the program is found there. -/
theorem put (h : db.Adopted) (name source : Bytes) :
    ∃ db', db.put name source = (.ok (), db') ∧ db'.Adopted ∧
      db'.get? name = .ok (some source) := by
  obtain ⟨t, ht⟩ := h.programs
  refine ⟨{ db with programs := some (t.set name source) }, ?_,
    ⟨⟨_, rfl⟩, h.history, h.metadata⟩, ?_⟩
  · rw [Database.put, ht]
    rfl
  · show Except.ok ((t.set name source).lookup name) = _
    rw [KeyTable.lookup_set, if_pos rfl]

end Adopted

end Database

namespace Store

variable {engine : Engine} {name path : Bytes} {disk disk' : Disk} {store : Store}

/-- A database on the disk that was opened is an adopted one. -/
theorem openDatabase_eq_ok (hfile : engine.resolve name = .file path .readWrite)
    (h : openDatabase engine name disk = (.ok store, disk')) :
    store = .database path true ∧ ∃ l db, disk'.database path = .ok (l, db) ∧ db.Adopted := by
  rw [openDatabase_of_file hfile] at h
  obtain ⟨rfl, l, db, hdb, hadopt, rfl⟩ := openFile_eq_ok h
  exact ⟨rfl, l, db.adopt.2, Disk.database_set hdb _, Database.adopted_of_adopt hadopt⟩

/-- An adopted database on the disk can be opened, and stays as it is. -/
theorem openDatabase_of_adopted (hfile : engine.resolve name = .file path .readWrite)
    {l : Location} {db : Database} (hdb : disk.database path = .ok (l, db)) (h : db.Adopted) :
    ∃ disk', openDatabase engine name disk = (.ok (.database path true), disk') ∧
      disk'.database path = .ok (l, db) := by
  refine ⟨_, ?_, Disk.database_set hdb db⟩
  rw [openDatabase_of_file hfile, openFile_of_database hdb, h.adopt_eq]
  rfl

end Store

/-! ## Opening -/

theorem Disk.set_set (d : Disk) (l : Location) (n : Node) : (d.set l n).set l n = d.set l n := by
  simp [Disk.set]

/-- A store that was opened is opened once more in the same way, and the disk stays as it is. -/
theorem Store.openDatabase_again {engine : Engine} {name : Bytes} {disk disk' : Disk}
    {store : Store} (h : openDatabase engine name disk = (.ok store, disk')) :
    openDatabase engine name disk' = (.ok store, disk') := by
  obtain ⟨-, -, rfl⟩ | ⟨path, hfile, rfl, l, db, hdb, hadopt, rfl⟩ | ⟨path, -, -, rfl⟩ :=
    openDatabase_cases h
  · exact h
  · rw [openDatabase_of_file hfile, openFile_of_database (Disk.database_set hdb _),
      (Database.adopted_of_adopt hadopt).adopt_eq, Disk.set_set]
    rfl
  · exact h

/-- **Opening a database adopts it without loss.** Let a name lead to a database with any rows in
its tables, any of which may be missing. It can be opened if and only if the version that it says to
have is missing, empty or the known one. Then all tables exist, with the programs and runs that were
there and no others, the version is the known one, and opening it again changes nothing. -/
theorem opening_adopts_database {engine : Engine} {name : Bytes} {disk : Disk} {db : Database}
    (h : Store.contentAt engine name disk = .ok db) :
    ((∃ store, (Store.openDatabase engine name disk).1 = .ok store) ↔
      db.storedVersion? = none ∨ db.storedVersion? = some [] ∨
        db.storedVersion? = some schemaVersion) ∧
    ∀ store disk', Store.openDatabase engine name disk = (.ok store, disk') →
      (∃ db', store.Holds disk' db' ∧ db'.IsAdoptionOf db) ∧
      Store.openDatabase engine name disk' = (.ok store, disk') := by
  obtain ⟨opened, disk₁, hopen, hholds⟩ := Store.openDatabase_eq h
  refine ⟨?_, ?_⟩
  · rw [hopen, ← Database.adopt_eq_ok_iff]
    cases db.adopt.1 <;> simp [Except.map]
  · intro store disk' hopened
    refine ⟨?_, Store.openDatabase_again hopened⟩
    rw [hopen] at hopened
    cases hadopt : db.adopt.1 with
    | error e =>
        rw [hadopt] at hopened
        cases hopened
    | ok _ =>
        rw [hadopt] at hopened
        cases hopened
        exact ⟨_, hholds, Database.isAdoptionOf_adopt hadopt⟩

/-- A database that has programs, an empty version and something else among its metadata, but no
table of runs. -/
theorem opening_adopts_database_without_runs :
    let programs : TextTable := { rows := [(text "a", text "+["), (text "", text "-")] }
    let metadata : TextTable := { rows := [(text "k", text "v"), (versionKey, [])] }
    let db : Database := { programs := some programs, metadata := some metadata }
    let disk : Disk := { nodes := [([text "bf.db"], .database db)] }
    let open? := Store.openDatabase .standard (text "bf.db")
    Store.contentAt .standard (text "bf.db") disk = .ok db ∧ ∃ store disk' db',
      open? disk = (.ok store, disk') ∧ store.Holds disk' db' ∧ db'.IsAdoptionOf db ∧
        open? disk' = (.ok store, disk') := by
  intro programs metadata db disk open?
  have hcontent : Store.contentAt .standard (text "bf.db") disk = .ok db := rfl
  obtain ⟨hopens, hadopts⟩ := opening_adopts_database hcontent
  obtain ⟨store, hstore⟩ := hopens.mpr (.inr (.inl (by decide)))
  obtain ⟨⟨db', hholds, hadoption⟩, hagain⟩ := hadopts store (open? disk).2 (by rw [← hstore])
  exact ⟨hcontent, store, _, db', by rw [← hstore], hholds, hadoption, hagain⟩

end Brainfuck
