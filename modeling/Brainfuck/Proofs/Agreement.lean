import Brainfuck.Proofs.StoreCalls
import Brainfuck.Proofs.Tables
import Brainfuck.Proofs.Timestamps

/-!
# Stores agree

A shelf and a database go separate ways: one has a list of runs for each name and keeps them as they
are, the other has the runs of all names in one table, numbers them and writes their times as text.
Both keep what the history of calls says, and so they give the same answers.

## Main Definitions

* `KeyTable.Keeps`, `Shelf.Keeps`, `Database.Keeps` — the content is what a history of calls keeps
* `TimedCall.Dated` — the times of a call can be written down

## Main Results

* `Shelf.Keeps.perform`, `Database.Keeps.perform` — a call is answered from the history and joins it
* `Answers.unique` — a history leaves a call no choice of answer
* `stores_agree` — a new shelf and a new database answer alike, and as the history says
-/

namespace Brainfuck

variable {history : List TimedCall}

/-! ## Answers -/

/-- A history leaves a call no choice of answer. -/
theorem Answers.unique {call : StoreCall} {a b : StoreAnswer} (ha : Answers history call a)
    (hb : Answers history call b) : a = b := by
  cases ha with
  | names hsorted hmem =>
      cases hb with
      | names hsorted' hmem' =>
          have heq := eq_of_increasing hsorted hsorted' fun name =>
            (hmem name).trans (hmem' name).symm
          rw [heq]
  | runsAll name hlimit =>
      cases hb with
      | runsAll => rfl
      | runsFirst _ limit hpos => exact absurd hlimit (by omega)
  | runsFirst name limit hpos =>
      cases hb with
      | runsAll _ hlimit => exact absurd hlimit (by omega)
      | runsFirst => rfl
  | get | put | delete | record =>
      cases hb
      rfl

theorem answers_limited (history : List TimedCall) (name : Bytes) (limit : Int) :
    Answers history (.runs name limit) (.runs (limited limit (keptRuns history name))) := by
  unfold limited
  split
  · next hpos =>
      obtain ⟨n, rfl⟩ := Int.eq_ofNat_of_zero_le (Int.le_of_lt hpos)
      exact .runsFirst name n (by omega)
  · next hpos => exact .runsAll name (by omega)

/-! ## Programs -/

namespace KeyTable

/-- The programs of a table are those that a history of calls keeps. -/
def Keeps (t : TextTable) (history : List TimedCall) : Prop :=
  ∀ name, t.lookup name = keptSource history name

variable {t : TextTable} {c : TimedCall}

theorem Keeps.answers_names (h : t.Keeps history) :
    Answers history .names (.names (sortTexts t.keys)) := by
  refine .names (pairwise_sortTexts t.nodup) ?_
  intro name
  rw [mem_sortTexts, mem_keys_iff, h name]

/-- The programs stay as they are if the history keeps the same sources. -/
theorem Keeps.of_eq (h : t.Keeps history)
    (heq : ∀ name, keptSource (history ++ [c]) name = keptSource history name) :
    t.Keeps (history ++ [c]) := by
  intro name
  rw [heq, h name]

theorem Keeps.put (h : t.Keeps history) (name source : Bytes) (now : Timestamp) :
    Keeps (t.set name source) (history ++ [⟨.put name source, now⟩]) := by
  intro n
  rw [keptSource_concat, lookup_set, h n]
  by_cases hn : n = name
  · simp [StoreCall.settles?, hn]
  · simp [StoreCall.settles?, hn, Ne.symm hn]

theorem Keeps.delete (h : t.Keeps history) (name : Bytes) (now : Timestamp) :
    Keeps (t.remove name) (history ++ [⟨.delete name, now⟩]) := by
  intro n
  rw [keptSource_concat, lookup_remove, h n]
  by_cases hn : n = name
  · simp [StoreCall.settles?, hn]
  · simp [StoreCall.settles?, hn, Ne.symm hn]

end KeyTable

/-! ## Runs -/

@[simp] theorem Run.name_stamped (run : Run) (now : Timestamp) :
    (run.stamped now).name = run.name := by
  unfold stamped
  split <;> rfl

/-! ## Shelves -/

namespace Shelf

/-- A shelf has on it what a history of calls keeps. -/
structure Keeps (s : Shelf) (history : List TimedCall) : Prop where
  programs : s.programs.Keeps history
  runs : ∀ name, (s.filed name).reverse = keptRuns history name

variable {s : Shelf}

theorem keeps_empty : empty.Keeps [] :=
  ⟨fun _ => rfl, fun _ => rfl⟩

theorem Keeps.of_asks (h : s.Keeps history) {c : TimedCall} (hasks : c.call.asks = true) :
    s.Keeps (history ++ [c]) := by
  refine ⟨h.programs.of_eq (keptSource_of_asks hasks history), ?_⟩
  intro name
  rw [h.runs, keptRuns_of_asks hasks]

theorem keeps_put (h : s.Keeps history) (name source : Bytes) (now : Timestamp) :
    (s.put name source).Keeps (history ++ [⟨.put name source, now⟩]) := by
  refine ⟨h.programs.put name source now, ?_⟩
  intro n
  rw [keptRuns_put]
  exact h.runs n

theorem keeps_delete (h : s.Keeps history) (name : Bytes) (now : Timestamp) :
    (s.delete name).Keeps (history ++ [⟨.delete name, now⟩]) := by
  refine ⟨h.programs.delete name now, ?_⟩
  intro n
  rw [filed_delete, keptRuns_delete, ← h.runs]
  split <;> rfl

theorem keeps_record (h : s.Keeps history) (run : Run) (now : Timestamp) :
    (s.record run now).Keeps (history ++ [⟨.record run, now⟩]) := by
  refine ⟨h.programs.of_eq fun name => keptSource_record history run name now, ?_⟩
  intro n
  rw [filed_record, keptRuns_record, ← h.runs]
  split
  · rw [List.reverse_concat]
  · rfl

/-- A shelf answers a call from the history, and the call joins the history. -/
theorem Keeps.perform (h : s.Keeps history) (c : TimedCall) :
    Answers history c.call (s.perform c).1 ∧ (s.perform c).2.Keeps (history ++ [c]) := by
  obtain ⟨call, now⟩ := c
  cases call with
  | get name =>
      refine ⟨?_, h.of_asks rfl⟩
      show Answers history _ (.source (s.programs.lookup name))
      rw [h.programs name]
      exact .get name
  | put name source => exact ⟨.put name source, keeps_put h name source now⟩
  | delete name => exact ⟨.delete name, keeps_delete h name now⟩
  | names => exact ⟨h.programs.answers_names, h.of_asks rfl⟩
  | record run => exact ⟨.record run, keeps_record h run now⟩
  | runs name limit =>
      refine ⟨?_, h.of_asks rfl⟩
      show Answers history _ (.runs (limited limit (s.filed name).reverse))
      rw [h.runs]
      exact answers_limited history name limit

end Shelf

/-! ## Databases -/

/-- The times of a call can be written down: that of the clock, and that of a run that has one. -/
structure TimedCall.Dated (c : TimedCall) : Prop where
  now : c.now.InCalendar
  run : ∀ run, c.call = .record run → run.time.isZero = true ∨ run.time.InCalendar

theorem TimedCall.Dated.stamped {run : Run} {now : Timestamp}
    (h : TimedCall.Dated ⟨.record run, now⟩) : (run.stamped now).time.InCalendar := by
  unfold Run.stamped
  split
  · exact h.now
  · next hzero => exact (h.run run rfl).resolve_left hzero

/-- The rows of a table of runs under a name, newest first, read as runs. -/
def RunTable.readUnder (table : RunTable) (name : Bytes) : List (Except StoreError Run) :=
  (table.rows.filter (·.name == name)).reverse.map RunRow.toRun

/-- A run is read back from the row that it was written to. -/
theorem RunTable.readUnder_add (table : RunTable) {run : Run} (h : run.time.InCalendar)
    (name : Bytes) :
    (table.add run.name run.iterations run.elapsed run.output
        (Rfc3339.write run.time)).readUnder name =
      if run.name = name then .ok run :: table.readUnder name else table.readUnder name := by
  unfold readUnder add
  rw [List.filter_append, List.reverse_append, List.map_append]
  by_cases hname : run.name = name
  · subst hname
    simp [RunRow.toRun, Rfc3339.read_write h]
  · simp [hname]

/-- What is left under a name when another name, or the name itself, is removed. -/
theorem RunTable.readUnder_remove (table : RunTable) (removed name : Bytes) :
    (table.remove removed).readUnder name =
      if removed = name then [] else table.readUnder name := by
  unfold readUnder remove
  rw [List.filter_filter]
  split
  next h =>
    subst h
    simp
  next h =>
    have hfilter : table.rows.filter (fun row => row.name == name && row.name != removed) =
        table.rows.filter (·.name == name) := by
      apply List.filter_congr
      intro row _
      by_cases hrow : row.name = name
      · simp [hrow, Ne.symm h]
      · simp [hrow]
    rw [hfilter]

theorem mapM_eq_ok {α β ε : Type} {f : α → Except ε β} {xs : List α} {ys : List β}
    (h : xs.map f = ys.map .ok) : xs.mapM f = .ok ys := by
  induction xs generalizing ys with
  | nil =>
      rw [List.map_eq_nil_iff.mp h.symm]
      rfl
  | cons x xs ih =>
      obtain ⟨y, ys, rfl, hy, hys⟩ := List.map_eq_cons_iff.mp h.symm
      rw [List.mapM_cons, ← hy, ih hys.symm]
      rfl

theorem map_limited {α β : Type} (f : α → β) (limit : Int) (xs : List α) :
    (limited limit xs).map f = limited limit (xs.map f) := by
  unfold limited
  split
  · exact List.map_take
  · rfl

namespace Database

/-- A database has in it what a history of calls keeps. -/
structure Keeps (db : Database) (history : List TimedCall) : Prop where
  programs : ∃ t, db.programs = some t ∧ t.Keeps history
  runs : ∃ table, db.history = some table ∧
    ∀ name, table.readUnder name = (keptRuns history name).map .ok

variable {db : Database}

theorem keeps_adopt_empty : empty.adopt.2.Keeps [] :=
  ⟨⟨{}, rfl, fun _ => rfl⟩, {}, rfl, fun _ => rfl⟩

theorem Keeps.of_asks (h : db.Keeps history) {c : TimedCall} (hasks : c.call.asks = true) :
    db.Keeps (history ++ [c]) := by
  obtain ⟨⟨t, ht, hkeeps⟩, table, htable, hruns⟩ := h
  refine ⟨⟨t, ht, hkeeps.of_eq (keptSource_of_asks hasks history)⟩, table, htable, ?_⟩
  intro name
  rw [hruns, keptRuns_of_asks hasks]

theorem keeps_put (h : db.Keeps history) (name source : Bytes) (now : Timestamp) :
    (db.put name source).1 = .ok () ∧
      (db.put name source).2.Keeps (history ++ [⟨.put name source, now⟩]) := by
  obtain ⟨⟨t, ht, hkeeps⟩, table, htable, hruns⟩ := h
  rw [put, ht]
  refine ⟨rfl, ⟨t.set name source, rfl, hkeeps.put name source now⟩, table, htable, ?_⟩
  intro n
  rw [hruns, keptRuns_put]

theorem keeps_delete (h : db.Keeps history) (name : Bytes) (now : Timestamp) :
    (db.delete name).1 = .ok () ∧
      (db.delete name).2.Keeps (history ++ [⟨.delete name, now⟩]) := by
  obtain ⟨⟨t, ht, hkeeps⟩, table, htable, hruns⟩ := h
  simp only [delete, ht, htable, require]
  refine ⟨trivial, ⟨_, rfl, hkeeps.delete name now⟩, _, rfl, ?_⟩
  intro n
  rw [keptRuns_delete, RunTable.readUnder_remove]
  split
  · rfl
  · exact hruns n

theorem keeps_record (h : db.Keeps history) {run : Run} {now : Timestamp}
    (hdated : TimedCall.Dated ⟨.record run, now⟩) :
    (db.record run now).1 = .ok () ∧
      (db.record run now).2.Keeps (history ++ [⟨.record run, now⟩]) := by
  obtain ⟨⟨t, ht, hkeeps⟩, table, htable, hruns⟩ := h
  rw [record, htable]
  refine ⟨rfl, ⟨t, ht, hkeeps.of_eq fun name => keptSource_record history run name now⟩, _, rfl, ?_⟩
  intro n
  rw [RunTable.readUnder_add table hdated.stamped, Run.name_stamped, keptRuns_record, hruns]
  split <;> rfl

theorem Keeps.get?_eq (h : db.Keeps history) (name : Bytes) :
    db.get? name = .ok (keptSource history name) := by
  obtain ⟨⟨t, ht, hkeeps⟩, -⟩ := h
  rw [← hkeeps name]
  simp only [get?, ht, require]
  rfl

theorem Keeps.answers_names (h : db.Keeps history) :
    ∃ names, db.names = .ok names ∧ Answers history .names (.names names) := by
  obtain ⟨⟨t, ht, hkeeps⟩, -⟩ := h
  refine ⟨sortTexts t.keys, ?_, hkeeps.answers_names⟩
  simp only [names, ht, require]
  rfl

theorem Keeps.runs_eq (h : db.Keeps history) (name : Bytes) (limit : Int) :
    db.runs name limit = .ok (limited limit (keptRuns history name)) := by
  obtain ⟨-, table, htable, hruns⟩ := h
  rw [Database.runs, htable]
  apply mapM_eq_ok
  rw [map_limited, map_limited]
  exact congrArg (limited limit) (hruns name)

/-- A database answers a call from the history, and the call joins the history. -/
theorem Keeps.perform (h : db.Keeps history) {c : TimedCall} (hdated : c.Dated) :
    ∃ answer, (db.perform c).1 = .ok answer ∧ Answers history c.call answer ∧
      (db.perform c).2.Keeps (history ++ [c]) := by
  obtain ⟨call, now⟩ := c
  have hmap {r : Except StoreError Unit} (hok : r = .ok ()) :
      r.map (fun _ => StoreAnswer.done) = .ok .done := by
    rw [hok]
    rfl
  cases call with
  | get name =>
      refine ⟨.source (keptSource history name), ?_, .get name, h.of_asks rfl⟩
      show (db.get? name).map StoreAnswer.source = _
      rw [h.get?_eq]
      rfl
  | put name source =>
      obtain ⟨hok, hkeeps⟩ := keeps_put h name source now
      exact ⟨.done, hmap hok, .put name source, hkeeps⟩
  | delete name =>
      obtain ⟨hok, hkeeps⟩ := keeps_delete h name now
      exact ⟨.done, hmap hok, .delete name, hkeeps⟩
  | names =>
      obtain ⟨names, hnames, hanswers⟩ := h.answers_names
      refine ⟨.names names, ?_, hanswers, h.of_asks rfl⟩
      show db.names.map StoreAnswer.names = _
      rw [hnames]
      rfl
  | record run =>
      obtain ⟨hok, hkeeps⟩ := keeps_record h hdated
      exact ⟨.done, hmap hok, .record run, hkeeps⟩
  | runs name limit =>
      refine ⟨.runs (limited limit (keptRuns history name)), ?_, answers_limited history name limit,
        h.of_asks rfl⟩
      show (db.runs name limit).map StoreAnswer.runs = _
      rw [h.runs_eq]
      rfl

end Database

/-! ## Agreement -/

theorem Shelf.Keeps.afterCalls {s : Shelf} (h : s.Keeps history) (cs : List TimedCall) :
    (s.afterCalls cs).Keeps (history ++ cs) := by
  induction cs generalizing s history with
  | nil => simpa [Shelf.afterCalls] using h
  | cons c cs ih =>
      have hnext := ih (h.perform c).2
      rwa [List.append_assoc] at hnext

theorem Database.Keeps.afterCalls {db : Database} (h : db.Keeps history) {cs : List TimedCall}
    (hdated : ∀ c ∈ cs, c.Dated) : (db.afterCalls cs).Keeps (history ++ cs) := by
  induction cs generalizing db history with
  | nil => simpa [Database.afterCalls] using h
  | cons c cs ih =>
      obtain ⟨-, -, -, hkeeps⟩ := h.perform (hdated c List.mem_cons_self)
      have hnext := ih hkeeps fun c hc => hdated c (List.mem_cons_of_mem _ hc)
      rwa [List.append_assoc] at hnext

/-- A new shelf and a newly opened database answer every call alike after the same calls. The
answer is the one that these calls determine. -/
theorem stores_agree {engine : Engine} {name : Bytes} {disk : Disk}
    (hnew : Store.contentAt engine name disk = .ok Database.empty) :
    ∃ opened disk', Store.openDatabase engine name disk = (.ok opened, disk') ∧
      ∀ (history : List TimedCall) (next : TimedCall), (∀ c ∈ history ++ [next], c.Dated) →
        ∃ answer, (∀ a, Answers history next.call a ↔ a = answer) ∧
          (Store.shelf Shelf.empty).answerAfter disk' history next = .ok answer ∧
          opened.answerAfter disk' history next = .ok answer := by
  obtain ⟨opened, disk', hopen, hholds⟩ := Store.openDatabase_eq hnew
  refine ⟨opened, disk', hopen, ?_⟩
  intro history next hdated
  have hhistory : ∀ c ∈ history, c.Dated := fun c hc => hdated c (List.mem_append_left _ hc)
  have hnext : next.Dated := hdated next (List.mem_append_right _ List.mem_cons_self)
  have hshelf := ((Shelf.keeps_empty.afterCalls history).perform next).1
  obtain ⟨answer, hanswer, hanswers, -⟩ :=
    (Database.keeps_adopt_empty.afterCalls hhistory).perform hnext
  refine ⟨answer, ?_, ?_, ?_⟩
  · intro a
    constructor
    · intro ha
      exact ha.unique hanswers
    · rintro rfl
      exact hanswers
  · rw [Store.answerAfter_shelf, hshelf.unique hanswers]
  · rw [hholds.answerAfter, hanswer]

/-- Of two runs under one name, only the one after the deletion is left, at the time of the
clock. -/
theorem stores_agree_after_delete :
    let now : Timestamp := ⟨2024, 2, 29, 12, 30, 0, 500, -90⟩
    let run : Run := ⟨text "cat", 3, 60, 8, ⟨1, 1, 1, 0, 0, 0, 0, 0⟩⟩
    let history : List TimedCall :=
      [⟨.record run, now⟩, ⟨.put (text "cat") (text ",[.,]"), now⟩,
        ⟨.delete (text "cat"), now⟩, ⟨.record run, now⟩]
    let next : TimedCall := ⟨.runs (text "cat") 5, now⟩
    let answer : StoreAnswer := .runs [⟨text "cat", 3, 60, 8, now⟩]
    Store.contentAt .standard (text "runs.db") {} = .ok Database.empty ∧
      (∀ c ∈ history ++ [next], c.Dated) ∧
      ∃ opened disk', Store.openDatabase .standard (text "runs.db") {} = (.ok opened, disk') ∧
        (Store.shelf Shelf.empty).answerAfter disk' history next = .ok answer ∧
        opened.answerAfter disk' history next = .ok answer := by
  intro now run history next answer
  have hnew : Store.contentAt .standard (text "runs.db") {} = .ok Database.empty := by decide
  have hnow : now.InCalendar := by constructor <;> decide
  have hdated : ∀ c ∈ history ++ [next], c.Dated := by
    intro c hc
    have htime : c.now = now ∧ ∀ r, c.call = .record r → r = run := by
      revert c
      simp [history, next]
    refine ⟨htime.1 ▸ hnow, ?_⟩
    intro r hr
    rw [htime.2 r hr]
    exact .inl (by decide)
  refine ⟨hnew, hdated, ?_⟩
  obtain ⟨opened, disk', hopen, hagree⟩ := stores_agree hnew
  obtain ⟨a, hanswers, hshelf, hdatabase⟩ := hagree history next hdated
  have hkept : (keptRuns history (text "cat")).take 5 = [⟨text "cat", 3, 60, 8, now⟩] := by decide
  have hfirst : Answers history next.call answer := by
    show Answers history (.runs (text "cat") 5) (.runs _)
    rw [← hkept]
    exact .runsFirst (text "cat") 5 (by decide)
  rw [(hanswers answer).mp hfirst]
  exact ⟨opened, disk', hopen, hshelf, hdatabase⟩

end Brainfuck
