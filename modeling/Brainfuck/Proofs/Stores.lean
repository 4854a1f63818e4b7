import Brainfuck.Proofs.Disks
import Brainfuck.Store

/-!
# What a store holds

An open store on a database may keep it on a disk, where it is looked up anew for every call, or
keep it to itself. Either way a call on the store is the call on the database that it holds. A
database that cannot be written is not held in this sense.

## Main Definitions

* `Store.Holds` — an open store holds a database
* `Store.contentAt` — the database that a name leads to before it is opened

## Main Results

* `Store.Holds.query`, `Store.Holds.change` — calls on a store are calls on what it holds
* `Store.openDatabase_cases` — the three ways in which a store is opened
* `Store.openDatabase_eq` — an opened store holds the adopted database
-/

namespace Brainfuck.Store

variable {s : Store} {engine : Engine} {name : Bytes} {disk : Disk} {db : Database}

/-- An open store holds a database that can be changed. -/
inductive Holds : Store → Disk → Database → Prop where
  | database {path : Bytes} {disk : Disk} {l : Location} {db : Database} :
      disk.database path = .ok (l, db) → Holds (.database path true) disk db
  | scratch (disk : Disk) (db : Database) : Holds (.scratch db true) disk db

/-- The database that a name leads to, if it can be changed. The path of a file that does not exist
yet leads to an empty one. -/
def contentAt (engine : Engine) (name : Bytes) (disk : Disk) : Except EngineError Database :=
  match engine.resolve name with
  | .scratch => .ok Database.empty
  | .file path .readWrite => (disk.database path).map (·.2)
  | .file _ .readOnly => .error .readOnly
  | .refused => .error .cannotOpen

/-- A question to a store is one to the database that it holds. -/
theorem Holds.query {α : Type} (h : s.Holds disk db) (onShelf : Shelf → α)
    (onDatabase : Database → Except StoreError α) :
    s.query disk onShelf onDatabase = onDatabase db := by
  cases h with
  | database hdb => simp only [Store.query, hdb]
  | scratch => rfl

/-- A change to a store is one to the database that it holds. -/
theorem Holds.change (h : s.Holds disk db) (onShelf : Shelf → Shelf)
    (onDatabase : Database → Except StoreError Unit × Database) :
    ∃ s' disk', s.change disk onShelf onDatabase = ((onDatabase db).1, s', disk') ∧
      s'.Holds disk' (onDatabase db).2 := by
  cases h with
  | @database path disk l db hdb =>
      refine ⟨.database path true, disk.set l (.database (onDatabase db).2), ?_, ?_⟩
      · simp only [Store.change, hdb]
      · exact .database (Disk.database_set hdb _)
  | scratch => exact ⟨.scratch (onDatabase db).2 true, disk, rfl, .scratch disk _⟩

/-! ## Opening a store -/

theorem openFile_of_database {path : Bytes} {l : Location}
    (hdb : disk.database path = .ok (l, db)) :
    openFile name path disk =
      (db.adopt.1.map fun _ => .database path true, disk.set l (.database db.adopt.2)) := by
  rw [openFile, hdb]

theorem openFile_eq_ok {path : Bytes} {disk' : Disk}
    (h : openFile name path disk = (.ok s, disk')) :
    s = .database path true ∧ ∃ l db, disk.database path = .ok (l, db) ∧ db.adopt.1 = .ok () ∧
      disk' = disk.set l (.database db.adopt.2) := by
  cases hdb : disk.database path with
  | error cause =>
      rw [openFile, hdb] at h
      cases h
  | ok found =>
      obtain ⟨l, db⟩ := found
      rw [openFile_of_database hdb] at h
      cases hadopt : db.adopt.1 with
      | error e =>
          rw [hadopt] at h
          cases h
      | ok _ =>
          rw [hadopt] at h
          cases h
          exact ⟨rfl, l, db, rfl, hadopt, rfl⟩

theorem openReadOnly_eq_ok {path : Bytes} (h : openReadOnly name path disk = .ok s) :
    s = .readOnly path true := by
  unfold openReadOnly at h
  split at h
  · cases h
  · cases h
  next hstat hdb =>
    dsimp only at h
    split at h
    · cases h
    · split at h
      · cases h
      · cases hadopt : (Prod.fst (Database.adopt _)) with
        | error e =>
            rw [hadopt] at h
            cases h
        | ok _ =>
            rw [hadopt] at h
            cases h
            rfl

theorem openDatabase_of_file {path : Bytes} (h : engine.resolve name = .file path .readWrite) :
    openDatabase engine name disk = openFile name path disk := by
  rw [openDatabase, h]

theorem contentAt_of_file {path : Bytes} (h : engine.resolve name = .file path .readWrite) :
    contentAt engine name disk = (disk.database path).map (·.2) := by
  rw [contentAt, h]

/-- How a store is opened: on a database of its own, on one that is on the disk and is adopted
there, or on one that cannot be written. -/
theorem openDatabase_cases {disk' : Disk} (h : openDatabase engine name disk = (.ok s, disk')) :
    (engine.resolve name = .scratch ∧ s = .scratch Database.empty.adopt.2 true ∧ disk' = disk) ∨
    (∃ path, engine.resolve name = .file path .readWrite ∧ s = .database path true ∧ ∃ l db,
      disk.database path = .ok (l, db) ∧ db.adopt.1 = .ok () ∧
        disk' = disk.set l (.database db.adopt.2)) ∨
    ∃ path, engine.resolve name = .file path .readOnly ∧ s = .readOnly path true ∧
      disk' = disk := by
  unfold openDatabase at h
  cases hresolve : engine.resolve name with
  | scratch =>
      rw [hresolve] at h
      cases h
      exact .inl ⟨rfl, rfl, rfl⟩
  | refused =>
      rw [hresolve] at h
      cases h
  | file path access =>
      rw [hresolve] at h
      cases access with
      | readWrite => exact .inr (.inl ⟨path, rfl, openFile_eq_ok h⟩)
      | readOnly =>
          obtain ⟨hopen, hdisk⟩ := Prod.mk.inj h
          exact .inr (.inr ⟨path, rfl, openReadOnly_eq_ok hopen, hdisk.symm⟩)

theorem contentAt_eq_ok (h : contentAt engine name disk = .ok db) :
    (engine.resolve name = .scratch ∧ db = Database.empty) ∨
    ∃ path l, engine.resolve name = .file path .readWrite ∧ disk.database path = .ok (l, db) := by
  unfold contentAt at h
  cases hresolve : engine.resolve name with
  | scratch =>
      rw [hresolve] at h
      cases h
      exact .inl ⟨rfl, rfl⟩
  | refused =>
      rw [hresolve] at h
      cases h
  | file path access =>
      rw [hresolve] at h
      cases access with
      | readOnly => cases h
      | readWrite =>
          dsimp only at h
          cases hdb : disk.database path with
          | error e =>
              rw [hdb] at h
              cases h
          | ok found =>
              rw [hdb] at h
              cases h
              exact .inr ⟨path, found.1, rfl, hdb⟩

/-- A store that is opened holds the adopted database, and so it does even if it is refused. -/
theorem openDatabase_eq (h : contentAt engine name disk = .ok db) :
    ∃ s disk', openDatabase engine name disk = (db.adopt.1.map fun _ => s, disk') ∧
      s.Holds disk' db.adopt.2 := by
  obtain ⟨hresolve, rfl⟩ | ⟨path, l, hresolve, hdb⟩ := contentAt_eq_ok h
  · refine ⟨.scratch Database.empty.adopt.2 true, disk, ?_, .scratch disk _⟩
    rw [openDatabase, hresolve]
    rfl
  · refine ⟨.database path true, _, ?_, .database (Disk.database_set hdb _)⟩
    rw [openDatabase_of_file hresolve, openFile_of_database hdb]

end Brainfuck.Store
