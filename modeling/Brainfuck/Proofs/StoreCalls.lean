import Brainfuck.Proofs.Stores

/-!
# Calls on a store

Calls on a store come one after the other, each at a time that a clock shows. What a store should
answer to a call is a matter of the calls before it alone: which source was put last under a name,
and which runs were recorded since the name was last deleted.

## Main Definitions

* `StoreCall`, `StoreAnswer`, `TimedCall` — a call, what it returns, and when it is made
* `Store.perform`, `Store.afterCalls` — a call, and any number of calls, on a store
* `Store.answerAfter` — the answer to a call that comes after other calls
* `keptSource`, `keptRuns` — what a history of calls keeps under a name
* `Answers` — the answer to a call after a history of calls

## Main Results

* `Store.Holds.perform`, `Store.Holds.afterCalls` — calls on a store are calls on what it holds
* `keptSource_concat`, `keptRuns_concat` — what one more call keeps
* `keptSource_of_asks`, `keptRuns_of_asks` — a call that only asks keeps everything
-/

namespace Brainfuck

/-- A call on a store. -/
inductive StoreCall where
  | get (name : Bytes)
  | put (name source : Bytes)
  | delete (name : Bytes)
  | names
  | record (run : Run)
  | runs (name : Bytes) (limit : Int)
  deriving DecidableEq, Repr

/-- What a call on a store returns. -/
inductive StoreAnswer where
  | source (found : Option Bytes)
  | done
  | names (names : List Bytes)
  | runs (runs : List Run)
  deriving DecidableEq, Repr

/-- A call together with the time that the clock shows. -/
structure TimedCall where
  call : StoreCall
  now : Timestamp
  deriving DecidableEq, Repr

/-! ## Making calls -/

/-- Makes a call on a shelf. -/
def Shelf.perform (s : Shelf) (c : TimedCall) : StoreAnswer × Shelf :=
  match c.call with
  | .get name => (.source (s.get? name), s)
  | .put name source => (.done, s.put name source)
  | .delete name => (.done, s.delete name)
  | .names => (.names s.names, s)
  | .record run => (.done, s.record run c.now)
  | .runs name limit => (.runs (s.runs name limit), s)

/-- Makes a call on a database. -/
def Database.perform (db : Database) (c : TimedCall) : Except StoreError StoreAnswer × Database :=
  match c.call with
  | .get name => ((db.get? name).map .source, db)
  | .put name source => (db.put name source).map (Except.map fun _ => .done) id
  | .delete name => (db.delete name).map (Except.map fun _ => .done) id
  | .names => (db.names.map .names, db)
  | .record run => (db.record run c.now).map (Except.map fun _ => .done) id
  | .runs name limit => ((db.runs name limit).map .runs, db)

/-- Makes calls on a database, whatever the answers. -/
def Database.afterCalls : Database → List TimedCall → Database :=
  List.foldl fun db c => (db.perform c).2

/-- Makes calls on a shelf, whatever the answers. -/
def Shelf.afterCalls : Shelf → List TimedCall → Shelf :=
  List.foldl fun s c => (s.perform c).2

namespace Store

/-- Makes a call on a store. -/
def perform (s : Store) (disk : Disk) (c : TimedCall) :
    Except StoreError StoreAnswer × Store × Disk :=
  match c.call with
  | .get name => ((s.get? disk name).map .source, s, disk)
  | .put name source => (s.put disk name source).map (Except.map fun _ => .done) id
  | .delete name => (s.delete disk name).map (Except.map fun _ => .done) id
  | .names => ((s.names disk).map .names, s, disk)
  | .record run => (s.record disk run c.now).map (Except.map fun _ => .done) id
  | .runs name limit => ((s.runs disk name limit).map .runs, s, disk)

/-- Makes calls on a store, whatever the answers. -/
def afterCalls (s : Store) (disk : Disk) (cs : List TimedCall) : Store × Disk :=
  cs.foldl (fun held c => (held.1.perform held.2 c).2) (s, disk)

/-- The answer of a store to a call that comes after other calls. -/
def answerAfter (s : Store) (disk : Disk) (history : List TimedCall) (next : TimedCall) :
    Except StoreError StoreAnswer :=
  ((s.afterCalls disk history).1.perform (s.afterCalls disk history).2 next).1

variable {s : Store} {disk : Disk} {db : Database}

/-- A call on a shelf always succeeds and leaves the disk alone. -/
theorem perform_shelf (content : Shelf) (disk : Disk) (c : TimedCall) :
    (shelf content).perform disk c =
      (.ok (content.perform c).1, shelf (content.perform c).2, disk) := by
  obtain ⟨call, now⟩ := c
  cases call <;> rfl

theorem afterCalls_shelf (content : Shelf) (disk : Disk) (cs : List TimedCall) :
    (shelf content).afterCalls disk cs = (shelf (content.afterCalls cs), disk) := by
  induction cs generalizing content with
  | nil => rfl
  | cons c cs ih =>
      rw [afterCalls, List.foldl_cons, perform_shelf]
      exact ih (content.perform c).2

/-- A call on a store is a call on the database that it holds. -/
theorem Holds.perform (h : s.Holds disk db) (c : TimedCall) :
    ∃ s' disk', s.perform disk c = ((db.perform c).1, s', disk') ∧
      s'.Holds disk' (db.perform c).2 := by
  obtain ⟨call, now⟩ := c
  cases call with
  | get name => exact ⟨s, disk, by simp [Store.perform, get?, h.query, Database.perform], h⟩
  | names => exact ⟨s, disk, by simp [Store.perform, names, h.query, Database.perform], h⟩
  | runs name limit =>
      exact ⟨s, disk, by simp [Store.perform, runs, h.query, Database.perform], h⟩
  | put name source =>
      obtain ⟨s', disk', hchange, hholds⟩ :=
        h.change (·.put name source) (·.put name source)
      exact ⟨s', disk', by simp [Store.perform, put, hchange, Database.perform], hholds⟩
  | delete name =>
      obtain ⟨s', disk', hchange, hholds⟩ := h.change (·.delete name) (·.delete name)
      exact ⟨s', disk', by simp [Store.perform, delete, hchange, Database.perform], hholds⟩
  | record run =>
      obtain ⟨s', disk', hchange, hholds⟩ := h.change (·.record run now) (·.record run now)
      exact ⟨s', disk', by simp [Store.perform, record, hchange, Database.perform], hholds⟩

theorem Holds.afterCalls (h : s.Holds disk db) (cs : List TimedCall) :
    (s.afterCalls disk cs).1.Holds (s.afterCalls disk cs).2 (db.afterCalls cs) := by
  induction cs generalizing s disk db with
  | nil => exact h
  | cons c cs ih =>
      obtain ⟨s', disk', hperform, hholds⟩ := h.perform c
      rw [Store.afterCalls, List.foldl_cons, hperform]
      exact ih hholds

theorem answerAfter_shelf (content : Shelf) (disk : Disk) (history : List TimedCall)
    (next : TimedCall) :
    (shelf content).answerAfter disk history next =
      .ok ((content.afterCalls history).perform next).1 := by
  rw [answerAfter, afterCalls_shelf, perform_shelf]

theorem Holds.answerAfter (h : s.Holds disk db) (history : List TimedCall) (next : TimedCall) :
    s.answerAfter disk history next = ((db.afterCalls history).perform next).1 := by
  obtain ⟨s', disk', hperform, -⟩ := (h.afterCalls history).perform next
  rw [Store.answerAfter, hperform]

end Store

/-! ## What calls keep -/

/-- What a call settles about a name: put, it has a source, and deleted, it has none. -/
def StoreCall.settles? (name : Bytes) : StoreCall → Option (Option Bytes)
  | .put n source => if n = name then some (some source) else none
  | .delete n => if n = name then some none else none
  | _ => none

/-- Whether a call only asks. -/
def StoreCall.asks : StoreCall → Bool
  | .get _ | .names | .runs _ _ => true
  | .put _ _ | .delete _ | .record _ => false

/-- Whether a call deletes a name. -/
def StoreCall.deletes (name : Bytes) : StoreCall → Bool
  | .delete n => n == name
  | _ => false

/-- The run that a call records under a name. A run without a time has the time of the call. -/
def TimedCall.recorded? (name : Bytes) (c : TimedCall) : Option Run :=
  match c.call with
  | .record run => if run.name = name then some (run.stamped c.now) else none
  | _ => none

/-- The source under a name: that of the last call that puts the name, unless one that deletes it
comes later. -/
def keptSource (history : List TimedCall) (name : Bytes) : Option Bytes :=
  (history.reverse.findSome? (·.call.settles? name)).join

/-- The runs recorded under a name since it was last deleted, newest first. -/
def keptRuns (history : List TimedCall) (name : Bytes) : List Run :=
  (history.reverse.takeWhile (!·.call.deletes name)).filterMap (·.recorded? name)

/-- The answer to a call after a history of calls. -/
inductive Answers (history : List TimedCall) : StoreCall → StoreAnswer → Prop where
  | get (name : Bytes) : Answers history (.get name) (.source (keptSource history name))
  | put (name source : Bytes) : Answers history (.put name source) .done
  | delete (name : Bytes) : Answers history (.delete name) .done
  | names {names : List Bytes} :
      names.Pairwise (· < ·) → (∀ name, name ∈ names ↔ (keptSource history name).isSome = true) →
      Answers history .names (.names names)
  | record (run : Run) : Answers history (.record run) .done
  | runsAll {limit : Int} (name : Bytes) : limit ≤ 0 →
      Answers history (.runs name limit) (.runs (keptRuns history name))
  | runsFirst (name : Bytes) (limit : Nat) : 0 < limit →
      Answers history (.runs name limit) (.runs ((keptRuns history name).take limit))

theorem keptSource_concat (history : List TimedCall) (c : TimedCall) (name : Bytes) :
    keptSource (history ++ [c]) name =
      (c.call.settles? name).getD (keptSource history name) := by
  rw [keptSource, List.reverse_concat, List.findSome?_cons]
  cases c.call.settles? name <;> rfl

theorem keptRuns_concat (history : List TimedCall) (c : TimedCall) (name : Bytes) :
    keptRuns (history ++ [c]) name =
      if c.call.deletes name then []
      else (c.recorded? name).toList ++ keptRuns history name := by
  rw [keptRuns, List.reverse_concat, List.takeWhile_cons]
  cases c.call.deletes name with
  | true => rfl
  | false =>
      simp only [Bool.not_false, if_true, List.filterMap_cons, Bool.false_eq_true, if_false]
      cases c.recorded? name <;> rfl

/-- A call that only asks keeps everything. -/
theorem keptSource_of_asks {c : TimedCall} (h : c.call.asks = true) (history : List TimedCall)
    (name : Bytes) : keptSource (history ++ [c]) name = keptSource history name := by
  obtain ⟨call, now⟩ := c
  rw [keptSource_concat]
  cases call with
  | get | names | runs => rfl
  | put | delete | record => cases h

theorem keptRuns_of_asks {c : TimedCall} (h : c.call.asks = true) (history : List TimedCall)
    (name : Bytes) : keptRuns (history ++ [c]) name = keptRuns history name := by
  obtain ⟨call, now⟩ := c
  rw [keptRuns_concat]
  cases call with
  | get | names | runs => rfl
  | put | delete | record => cases h

theorem keptRuns_put (history : List TimedCall) (key source name : Bytes) (now : Timestamp) :
    keptRuns (history ++ [⟨.put key source, now⟩]) name = keptRuns history name := by
  rw [keptRuns_concat]
  rfl

theorem keptRuns_delete (history : List TimedCall) (removed name : Bytes) (now : Timestamp) :
    keptRuns (history ++ [⟨.delete removed, now⟩]) name =
      if removed = name then [] else keptRuns history name := by
  rw [keptRuns_concat]
  by_cases h : removed = name <;> simp [StoreCall.deletes, TimedCall.recorded?, h]

theorem keptRuns_record (history : List TimedCall) (run : Run) (name : Bytes) (now : Timestamp) :
    keptRuns (history ++ [⟨.record run, now⟩]) name =
      if run.name = name then run.stamped now :: keptRuns history name
      else keptRuns history name := by
  rw [keptRuns_concat]
  by_cases h : run.name = name <;> simp [StoreCall.deletes, TimedCall.recorded?, h]

theorem keptSource_record (history : List TimedCall) (run : Run) (name : Bytes)
    (now : Timestamp) :
    keptSource (history ++ [⟨.record run, now⟩]) name = keptSource history name := by
  rw [keptSource_concat]
  rfl

end Brainfuck
