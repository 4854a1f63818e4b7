import Brainfuck.Proofs.Samples
import Brainfuck.Proofs.Stores
import Brainfuck.Proofs.Tables
import Brainfuck.Proofs.TraceFiles
import Brainfuck.Session

/-!
# Listed and loadable names

A session lists the programs of its store and the samples that none of them hides. Every name that
is listed can be loaded. The converse has an exception: a name with slashes that leads to the file
of a sample is loaded as that sample, and listed only if the store has a program of that name.

## Main Definitions

* `Store.HasPrograms` — the programs of a store that works
* `Session.Working` — a session whose store works, if it has one
* `ProgramCall`, `Session.afterCalls` — calls that change the programs of a session

## Main Results

* `Session.Working.afterCalls` — a store still works after any calls
* `listed_names_load` — which names are listed, and which ones can be loaded
* `unlisted_name_loads` — a name that can be loaded although it is not listed

## Design Notes

Saving a program compiles it, which may write a trace. A session in which traces are written over
the database has no working store for long, and is left out.
-/

namespace Brainfuck

/-! ## Stores that work -/

namespace Store

variable {s : Store} {disk disk' : Disk} {t : TextTable}

/-- The programs of a store are those of a table. -/
inductive HasPrograms : Store → Disk → TextTable → Prop where
  | shelf (content : Shelf) (disk : Disk) : HasPrograms (.shelf content) disk content.programs
  | database {s : Store} {disk : Disk} {db : Database} {t : TextTable} :
      s.Holds disk db → db.programs = some t → HasPrograms s disk t

theorem HasPrograms.get?_eq (h : s.HasPrograms disk t) (name : Bytes) :
    s.get? disk name = .ok (t.lookup name) := by
  cases h with
  | shelf => rfl
  | database hholds ht =>
      rw [get?, hholds.query]
      simp only [Database.get?, ht, Database.require]
      rfl

theorem HasPrograms.names_eq (h : s.HasPrograms disk t) :
    s.names disk = .ok (sortTexts t.keys) := by
  cases h with
  | shelf => rfl
  | database hholds ht =>
      rw [names, hholds.query]
      simp only [Database.names, ht, Database.require]
      rfl

theorem HasPrograms.put (h : s.HasPrograms disk t) (name source : Bytes) :
    HasPrograms (s.put disk name source).2.1 (s.put disk name source).2.2 (t.set name source) := by
  cases h with
  | shelf content => exact .shelf _ disk
  | @database _ _ db _ hholds hdb =>
      obtain ⟨s', disk', hchange, hholds'⟩ := hholds.change (·.put name source) (·.put name source)
      rw [Store.put, hchange]
      refine .database hholds' ?_
      rw [Database.put, hdb]
      rfl

/-- Deleting a program may fail for want of its runs, but the program is gone. -/
theorem HasPrograms.delete (h : s.HasPrograms disk t) (name : Bytes) :
    HasPrograms (s.delete disk name).2.1 (s.delete disk name).2.2 (t.remove name) := by
  cases h with
  | shelf content => exact .shelf _ disk
  | @database _ _ db _ hholds hdb =>
      obtain ⟨s', disk', hchange, hholds'⟩ := hholds.change (·.delete name) (·.delete name)
      rw [Store.delete, hchange]
      refine .database hholds' ?_
      obtain ⟨programs, history, metadata⟩ := db
      cases hdb
      cases history <;> rfl

/-- The programs are found again on a disk on which the database was spared. -/
theorem HasPrograms.of_spares (h : s.HasPrograms disk t)
    (hspares : ∀ path isOpen l, s = .database path isOpen → disk.locate path = .ok l →
      Disk.Spares l disk disk') : s.HasPrograms disk' t := by
  cases h with
  | shelf content => exact .shelf content disk'
  | @database _ _ db _ hholds hdb =>
      cases hholds with
      | scratch => exact .database (.scratch disk' db) hdb
      | @database path _ l _ hfound =>
          have hne : db ≠ Database.empty := by
            rintro rfl
            cases hdb
          have hl := hspares path true l rfl (Disk.database_eq_ok hfound).1
          exact .database (.database (hl.database hfound hne)) hdb

theorem HasPrograms.exists_locate {path : Bytes} {isOpen : Bool}
    (h : HasPrograms (.database path isOpen) disk t) : ∃ l, disk.locate path = .ok l := by
  cases h with
  | database hholds _ =>
      cases hholds with
      | @database _ _ l _ hfound => exact ⟨l, (Disk.database_eq_ok hfound).1⟩

/-- A change leaves a handle at its path. -/
theorem change_eq_database_iff (s : Store) (disk : Disk) (onShelf : Shelf → Shelf)
    (onDatabase : Database → Except StoreError Unit × Database) (path : Bytes) (isOpen : Bool) :
    (s.change disk onShelf onDatabase).2.1 = .database path isOpen ↔ s = .database path isOpen := by
  cases s with
  | shelf content => simp [change]
  | database path' isOpen' =>
      cases isOpen' with
      | false => simp [change]
      | true =>
          unfold change
          dsimp only
          split <;> simp
  | readOnly path' isOpen' => cases isOpen' <;> simp [change]
  | scratch content isOpen' => cases isOpen' <;> simp [change]

theorem working_change (s : Store) (disk : Disk) (onShelf : Shelf → Shelf)
    (onDatabase : Database → Except StoreError Unit × Database) :
    (s.change disk onShelf onDatabase).2.2.working = disk.working := by
  cases s with
  | shelf content => rfl
  | database path isOpen =>
      cases isOpen with
      | false => rfl
      | true =>
          unfold change
          dsimp only
          split <;> rfl
  | readOnly path isOpen => cases isOpen <;> rfl
  | scratch content isOpen => cases isOpen <;> rfl

end Store

/-! ## Sessions whose store works -/

/-- A call that changes the programs of a session: through the session, or on its store. -/
inductive ProgramCall where
  | save (name source : Bytes)
  | put (name source : Bytes)
  | delete (name : Bytes)
  deriving DecidableEq, Repr

namespace Session

variable {s : Session} {t : TextTable}

/-- The session after a call, whatever the answer. Without a store there is none to call. -/
def afterCall (s : Session) : ProgramCall → Session
  | .save name source => (s.save name source).2
  | .put name source =>
    match s.store with
    | .present store => (s.changeStore store (·.put · name source)).2
    | _ => s
  | .delete name =>
    match s.store with
    | .present store => (s.changeStore store (·.delete · name)).2
    | _ => s

/-- The session after any number of calls. -/
def afterCalls (s : Session) (calls : List ProgramCall) : Session :=
  calls.foldl afterCall s

/-- The file of the trace with a given identity. -/
def tracePath (s : Session) (bits : Nat) : Bytes :=
  TraceSettings.path { dir := s.settings.traceDir, id := uuid bits }

/-- The table of the programs in the store. Without a store there are none. -/
def Stores (s : Session) (t : TextTable) : Prop :=
  match s.store with
  | .present store => store.HasPrograms s.host.disk t
  | _ => t = .empty

/-- No trace is written over the database of the store. -/
def TracesApart (s : Session) : Prop :=
  ∀ path isOpen, s.store = .present (.database path isOpen) → s.settings.traceDir.isEmpty = false →
    ∀ (d d' : Disk) (l : Location) (bits : Nat), d.working = s.host.disk.working →
      d'.working = s.host.disk.working → d.locate path = .ok l →
      d'.locate (s.tracePath bits) ≠ .ok l

/-- The store of a session works, if it has one. -/
structure Working (s : Session) (t : TextTable) : Prop where
  stores : s.Stores t
  apart : s.TracesApart

theorem TracesApart.of_eq {s' : Session} (h : s.TracesApart)
    (hstore : ∀ path isOpen, s'.store = .present (.database path isOpen) →
      s.store = .present (.database path isOpen))
    (hsettings : s'.settings = s.settings)
    (hworking : s'.host.disk.working = s.host.disk.working) : s'.TracesApart := by
  intro path isOpen hpath
  unfold tracePath
  rw [hsettings, hworking]
  exact h path isOpen (hstore path isOpen hpath)

/-! ### Compiling -/

theorem settings_compile (s : Session) (source : Bytes) :
    (s.compile source).2.settings = s.settings := rfl

theorem store_compile (s : Session) (source : Bytes) : (s.compile source).2.store = s.store := rfl

/-- A session compiles by its settings, on its disk, and with a fresh identity for a trace. -/
theorem program_compile (s : Session) (source : Bytes) :
    ((s.compile source).1, (s.compile source).2.host.disk) =
      Program.compile
        { strict := s.settings.strict,
          trace := if s.settings.traceDir.isEmpty then none
            else some { dir := s.settings.traceDir, id := uuid s.host.nextId } }
        { bytes := source } s.host.disk := by
  unfold compile
  by_cases hdir : s.settings.traceDir.isEmpty = true
  · simp [hdir]
  · simp [hdir, Host.trace, Host.freshId]

theorem spares_compile (source : Bytes) {l : Location}
    (h : s.settings.traceDir.isEmpty = false → ∀ (d : Disk) (bits : Nat),
      d.working = s.host.disk.working → d.locate (s.tracePath bits) ≠ .ok l) :
    Disk.Spares l s.host.disk (s.compile source).2.host.disk := by
  have hdisk := congrArg Prod.snd (program_compile s source)
  dsimp only at hdisk
  rw [hdisk]
  apply Program.spares_compile
  intro trace htrace d hworking
  split at htrace
  · cases htrace
  · next hdir =>
      cases htrace
      exact h (Bool.eq_false_iff.mpr hdir) d s.host.nextId hworking

theorem stores_iff_of_present {store : Store} (hstore : s.store = .present store) :
    s.Stores t ↔ store.HasPrograms s.host.disk t := by
  rw [Stores, hstore]

theorem Working.spares_compile (h : s.Working t) (source : Bytes) {path : Bytes} {isOpen : Bool}
    (hstore : s.store = .present (.database path isOpen)) {l : Location}
    (hlocate : s.host.disk.locate path = .ok l) :
    Disk.Spares l s.host.disk (s.compile source).2.host.disk := by
  apply Session.spares_compile
  intro hdir d bits hworking
  exact h.apart path isOpen hstore hdir s.host.disk d l bits rfl hworking hlocate

/-- Compiling leaves the programs of the store as they are. -/
theorem Working.compile (h : s.Working t) (source : Bytes) : (s.compile source).2.Working t := by
  refine ⟨?_, ?_⟩
  · have hstores := h.stores
    unfold Stores at hstores ⊢
    rw [store_compile]
    cases hstore : s.store with
    | present store =>
        rw [hstore] at hstores
        refine Store.HasPrograms.of_spares hstores ?_
        intro path isOpen l hpath hlocate
        subst hpath
        exact h.spares_compile source hstore hlocate
    | absent =>
        rw [hstore] at hstores
        exact hstores
    | unavailable cause =>
        rw [hstore] at hstores
        exact hstores
  · intro path isOpen hstore
    rw [store_compile] at hstore
    obtain ⟨l, hlocate⟩ := ((stores_iff_of_present hstore).mp h.stores).exists_locate
    have hworking := (h.spares_compile source hstore hlocate).working
    refine h.apart.of_eq ?_ (settings_compile s source) hworking path isOpen hstore
    intro path isOpen hpath
    exact hpath

/-! ### Calls -/

/-- A store that works after a change still belongs to a session whose store works. -/
theorem Working.changeStore (h : s.Working t) {store : Store}
    (hstore : s.store = .present store)
    {onShelf : Shelf → Shelf} {onDatabase : Database → Except StoreError Unit × Database}
    {t' : TextTable}
    (hprograms : Store.HasPrograms (store.change s.host.disk onShelf onDatabase).2.1
      (store.change s.host.disk onShelf onDatabase).2.2 t') :
    (s.changeStore store fun store disk => store.change disk onShelf onDatabase).2.Working t' := by
  refine ⟨hprograms, h.apart.of_eq ?_ rfl ?_⟩
  · intro path isOpen hpath
    have hchanged := StoreAccess.present.inj hpath
    rw [hstore, (Store.change_eq_database_iff _ _ _ _ _ _).mp hchanged]
  · exact Store.working_change store s.host.disk onShelf onDatabase

theorem Working.put (h : s.Working t) {store : Store} (hstore : s.store = .present store)
    (name source : Bytes) :
    (s.changeStore store (·.put · name source)).2.Working (t.set name source) :=
  h.changeStore hstore (((stores_iff_of_present hstore).mp h.stores).put name source)

theorem Working.delete (h : s.Working t) {store : Store} (hstore : s.store = .present store)
    (name : Bytes) : (s.changeStore store (·.delete · name)).2.Working (t.remove name) :=
  h.changeStore hstore (((stores_iff_of_present hstore).mp h.stores).delete name)

theorem Working.save (h : s.Working t) (name source : Bytes) :
    ∃ t', (s.save name source).2.Working t' := by
  unfold Session.save
  split
  · exact ⟨t, h⟩
  · exact ⟨t, h⟩
  · next store hstore =>
      have hcompile := h.compile source
      have hstore' := (store_compile s source).trans hstore
      split
      · next heq =>
          rw [heq] at hcompile
          exact ⟨t, hcompile⟩
      · next heq =>
          rw [heq] at hcompile hstore'
          exact ⟨_, hcompile.put hstore' name source⟩

theorem Working.afterCall (h : s.Working t) (call : ProgramCall) :
    ∃ t', (s.afterCall call).Working t' := by
  cases call with
  | save name source => exact h.save name source
  | put name source =>
      unfold Session.afterCall
      dsimp only
      split
      · next hstore => exact ⟨_, h.put hstore name source⟩
      · exact ⟨t, h⟩
  | delete name =>
      unfold Session.afterCall
      dsimp only
      split
      · next hstore => exact ⟨_, h.delete hstore name⟩
      · exact ⟨t, h⟩

/-- A store still works after any calls. -/
theorem Working.afterCalls (h : s.Working t) (calls : List ProgramCall) :
    ∃ t', (s.afterCalls calls).Working t' := by
  induction calls generalizing s t with
  | nil => exact ⟨t, h⟩
  | cons call calls ih =>
      obtain ⟨t', h'⟩ := h.afterCall call
      exact ih h'

/-! ## Listing and loading -/

/-- Without a store there are no programs but the samples. -/
theorem eq_empty_of_stores (h : s.Stores t) (hnone : ∀ store, s.store ≠ .present store) :
    t = {} := by
  unfold Stores at h
  cases hstore : s.store with
  | present store => exact absurd hstore (hnone store)
  | absent =>
      rw [hstore] at h
      exact h
  | unavailable cause =>
      rw [hstore] at h
      exact h

/-- The names that are listed: those in the store, and the samples that none of them hides. -/
theorem Working.programs_eq (h : s.Working t) :
    s.programs = .ok (sortTexts t.keys ++
      sampleNames.filter fun name => !(sortTexts t.keys).contains name) := by
  have hempty : sortTexts (KeyTable.keys (α := Bytes) {}) = [] := by simp [sortTexts, KeyTable.keys]
  unfold programs
  cases hstore : s.store with
  | present store =>
      simp only [((stores_iff_of_present hstore).mp h.stores).names_eq]
      rfl
  | absent =>
      rw [eq_empty_of_stores h.stores (by simp [hstore]), hempty]
      rfl
  | unavailable cause =>
      rw [eq_empty_of_stores h.stores (by simp [hstore]), hempty]
      rfl

/-- A name is looked up in the store first. -/
theorem Working.load_eq (h : s.Working t) (name : Bytes) :
    s.load name = match t.lookup name <|> sample? name with
      | some source => .ok source
      | none => .error (.notFound name) := by
  unfold load
  cases hstore : s.store with
  | present store =>
      simp only [((stores_iff_of_present hstore).mp h.stores).get?_eq]
      rfl
  | absent =>
      rw [eq_empty_of_stores h.stores (by simp [hstore])]
      rfl
  | unavailable cause =>
      rw [eq_empty_of_stores h.stores (by simp [hstore])]
      rfl

theorem Working.exists_load_iff (h : s.Working t) (name : Bytes) :
    (∃ source, s.load name = .ok source) ↔ name ∈ t.keys ∨ ReachesSample name := by
  rw [KeyTable.mem_keys_iff, ← sample?_isSome_iff, h.load_eq]
  cases t.lookup name with
  | some source => simp
  | none => cases sample? name <;> simp

/-- Every name of a sample is listed, in the store or by itself. -/
theorem mem_listed_iff {stored : List Bytes} {name : Bytes} :
    name ∈ stored ++ sampleNames.filter (fun name => !stored.contains name) ↔
      name ∈ stored ∨ name ∈ sampleNames := by
  rw [List.mem_append, List.mem_filter]
  by_cases hstored : name ∈ stored <;> simp [hstored]

theorem nodup_listed {stored : List Bytes} (h : stored.Nodup) :
    (stored ++ sampleNames.filter (fun name => !stored.contains name)).Nodup := by
  have hsamples : sampleNames.Nodup := by decide
  refine List.nodup_append.mpr ⟨h, hsamples.sublist List.filter_sublist, ?_⟩
  intro a ha b hb
  rintro rfl
  rw [List.mem_filter] at hb
  simp [ha] at hb

end Session

/-- After any calls that change the programs, no name is listed twice, and a name can be loaded if
it is listed, or if it has slashes and leads to the file of a sample. All other names are not
found. -/
theorem listed_names_load {s : Session} {t : TextTable} (h : s.Working t)
    (calls : List ProgramCall) :
    ∃ names, (s.afterCalls calls).programs = .ok names ∧ names.Nodup ∧ ∀ name,
      ((∃ source, (s.afterCalls calls).load name = .ok source) ↔
        name ∈ names ∨ (Path.slash ∈ name ∧ ReachesSample name)) ∧
      ((∃ source, (s.afterCalls calls).load name = .ok source) ∨
        (s.afterCalls calls).load name = .error (.notFound name)) := by
  obtain ⟨t', hworking⟩ := h.afterCalls calls
  refine ⟨_, hworking.programs_eq, Session.nodup_listed ?_, ?_⟩
  · exact (List.mergeSort_perm _ _).nodup_iff.mpr t'.nodup
  intro name
  constructor
  · rw [hworking.exists_load_iff, Session.mem_listed_iff, mem_sortTexts]
    by_cases hslash : Path.slash ∈ name
    · have hnot : name ∉ sampleNames := fun hname => slash_not_mem_sampleNames name hname hslash
      simp [hslash, hnot]
    · simp [hslash, reachesSample_iff hslash]
  · rw [hworking.load_eq]
    cases (t'.lookup name <|> sample? name) with
    | some source => exact .inl ⟨source, rfl⟩
    | none => exact .inr rfl

/-- A database with a program that hides a sample, and calls on it. -/
theorem listed_names_load_of_database :
    let t : TextTable := { rows := [(text "cat", text "+")] }
    let disk : Disk := { nodes := [([text "bf.db"], .database { programs := some t })] }
    let s : Session :=
      { settings := {}, tape := Tape.zero 1, console := { feed := Feed.empty },
        store := .present (.database (text "bf.db") true), host := { disk } }
    let calls : List ProgramCall :=
      [.save (text "a/b") (text "[-]"), .put (text "") (text "["), .delete (text "fib")]
    s.Working t ∧ ∃ names, (s.afterCalls calls).programs = .ok names ∧ names.Nodup ∧ ∀ name,
      ((∃ source, (s.afterCalls calls).load name = .ok source) ↔
        name ∈ names ∨ (Path.slash ∈ name ∧ ReachesSample name)) ∧
      ((∃ source, (s.afterCalls calls).load name = .ok source) ∨
        (s.afterCalls calls).load name = .error (.notFound name)) := by
  intro t disk s calls
  have hfound : disk.database (text "bf.db") = .ok ([text "bf.db"], { programs := some t }) := by
    decide
  have hworking : s.Working t := by
    refine ⟨.database (.database hfound) rfl, ?_⟩
    intro path isOpen _ htraced
    cases htraced
  exact ⟨hworking, listed_names_load hworking calls⟩

/-- A name that can be loaded although it is not listed: the slash in front of it is lost on the way
to the file of the sample. -/
theorem unlisted_name_loads :
    let s : Session :=
      { settings := {}, tape := Tape.zero 1, console := { feed := Feed.empty }, store := .absent,
        host := {} }
    s.Working {} ∧ s.programs = .ok [text "cat", text "fib", text "hello"] ∧
      text "/cat" ∉ [text "cat", text "fib", text "hello"] ∧
      s.load (text "/cat") = .ok catSource := by
  intro s
  refine ⟨⟨rfl, ?_⟩, rfl, by decide, by decide⟩
  intro path isOpen hstore
  cases hstore

end Brainfuck
