import Brainfuck.Proofs.Records
import Mathlib.Data.List.Forall2
import Mathlib.Data.List.Nodup

/-!
# The history of a name

The runs of a name are read from the newest to the oldest row, up to a limit. A row whose time is no
timestamp fails the call if it is within the limit, and is not looked at otherwise.

## Main Definitions

* `RunRow.Readable`, `RunRow.Denotes` — a row whose time is a timestamp, and the run that it stands
  for
* `RunTable.newestFirst`, `RunTable.window` — the rows of a name by decreasing number, and those of
  them that are within a limit

## Main Results

* `mapM_cases` — a list whose elements are read one after the other
* `RunTable.newestFirst_eq` — by decreasing number, rows are those from the last one to the first
* `Database.runs_eq_mapM` — the rows that are read are those within the limit
* `history_is_cut_by_limit` — which runs are read, and which row is blamed if none are
-/

namespace Brainfuck

/-! ## Reading a list -/

section Reading

variable {α β ε : Type}

/-- How the elements of a list are read one after the other: up to the end, or up to the first one
that fails. -/
theorem mapM_cases (f : α → Except ε β) (xs : List α) :
    (∃ ys, xs.mapM f = .ok ys ∧ (∀ a ∈ xs, ∃ b, f a = .ok b) ∧
      List.Forall₂ (fun x y => f x = .ok y) xs ys) ∨
    ∃ front x back e, xs = front ++ x :: back ∧ (∀ a ∈ front, ∃ b, f a = .ok b) ∧
      f x = .error e ∧ xs.mapM f = .error e := by
  induction xs with
  | nil => exact .inl ⟨[], rfl, nofun, .nil⟩
  | cons x xs ih =>
      rw [List.mapM_cons]
      cases hx : f x with
      | error e => exact .inr ⟨[], x, xs, e, rfl, nofun, hx, rfl⟩
      | ok y =>
          obtain ⟨ys, hys, hall, hread⟩ | ⟨front, x', back, e, rfl, hfront, hx', hfails⟩ := ih
          · rw [hys]
            exact .inl ⟨y :: ys, rfl, List.forall_mem_cons.mpr ⟨⟨y, hx⟩, hall⟩, .cons hx hread⟩
          · rw [hfails]
            exact .inr ⟨x :: front, x', back, e, rfl,
              List.forall_mem_cons.mpr ⟨⟨y, hx⟩, hfront⟩, hx', rfl⟩

/-- A longer list is read with the same results at its start. -/
theorem isPrefix_of_mapM {f : α → Except ε β} {xs xs' : List α} {ys ys' : List β}
    (hfront : xs <+: xs') (h : xs.mapM f = .ok ys) (h' : xs'.mapM f = .ok ys') : ys <+: ys' := by
  obtain ⟨more, rfl⟩ := hfront
  rw [List.mapM_append, h] at h'
  cases hmore : more.mapM f with
  | error e =>
      rw [hmore] at h'
      cases h'
  | ok zs =>
      rw [hmore] at h'
      cases h'
      exact List.prefix_append ys zs

end Reading

/-! ## Rows -/

namespace RunRow

variable {row : RunRow} {run : Run}

/-- The time of a row is a timestamp. -/
def Readable (row : RunRow) : Prop :=
  ∃ time, Rfc3339.read row.time = .ok time

/-- A row stands for a run. -/
structure Denotes (row : RunRow) (run : Run) : Prop where
  name_eq : run.name = row.name
  iterations_eq : run.iterations = row.iterations
  elapsed_eq : run.elapsed = row.elapsed
  output_eq : run.output = row.output
  time_eq : Rfc3339.read row.time = .ok run.time

theorem denotes_of_toRun (h : row.toRun = .ok run) : row.Denotes run := by
  unfold toRun at h
  cases hread : Rfc3339.read row.time with
  | error cause =>
      rw [hread] at h
      cases h
  | ok time =>
      rw [hread] at h
      cases h
      exact ⟨rfl, rfl, rfl, rfl, hread⟩

theorem readable_iff : row.Readable ↔ ∃ run, row.toRun = .ok run := by
  unfold Readable toRun
  cases Rfc3339.read row.time <;> simp

/-- A row that cannot be read is blamed for its time. -/
theorem exists_of_toRun_eq_error {e : StoreError} (h : row.toRun = .error e) :
    ∃ cause, Rfc3339.read row.time = .error cause ∧ e = .badTime row.time cause := by
  unfold toRun at h
  cases hread : Rfc3339.read row.time with
  | ok time =>
      rw [hread] at h
      cases h
  | error cause =>
      rw [hread] at h
      cases h
      exact ⟨cause, rfl, rfl⟩

end RunRow

/-! ## Tables -/

namespace RunTable

variable {table : RunTable}

/-- The rows of a name by decreasing number. -/
def newestFirst (table : RunTable) (name : Bytes) : List RunRow :=
  (table.rows.filter (·.name == name)).mergeSort fun a b => decide (b.id ≤ a.id)

/-- The rows of a name by decreasing number, only the first ones if a limit is given. -/
def window (table : RunTable) (name : Bytes) (limit : Int) : List RunRow :=
  if 0 < limit then (table.newestFirst name).take limit.toNat else table.newestFirst name

/-- A number belongs to one row. -/
theorem eq_of_id_eq {a b : RunRow} (ha : a ∈ table.rows) (hb : b ∈ table.rows)
    (hid : a.id = b.id) : a = b := by
  have hnodup : (table.rows.map (·.id)).Nodup :=
    List.pairwise_map.mpr (table.sorted.imp Int.ne_of_lt)
  exact List.inj_on_of_nodup_map hnodup ha hb hid

/-- By decreasing number, the rows of a name are those from the last one to the first. -/
theorem newestFirst_eq (table : RunTable) (name : Bytes) :
    table.newestFirst name = (table.rows.filter (·.name == name)).reverse := by
  have hperm : (table.newestFirst name).Perm (table.rows.filter (·.name == name)).reverse :=
    (List.mergeSort_perm _ _).trans (List.reverse_perm _).symm
  have hsorted : (table.newestFirst name).Pairwise fun a b => decide (b.id ≤ a.id) = true := by
    apply List.pairwise_mergeSort
    · intro a b c hab hbc
      simp only [decide_eq_true_eq] at *
      omega
    · intro a b
      simp only [Bool.or_eq_true, decide_eq_true_eq]
      omega
  have hreversed : (table.rows.filter (·.name == name)).reverse.Pairwise
      fun a b => decide (b.id ≤ a.id) = true := by
    rw [List.pairwise_reverse]
    refine (table.sorted.sublist List.filter_sublist).imp ?_
    intro a b hlt
    exact decide_eq_true (Int.le_of_lt hlt)
  refine hperm.eq_of_pairwise ?_ hsorted hreversed
  intro a b ha hb hba hab
  have hrow {x : RunRow} (hx : x ∈ (table.rows.filter (·.name == name)).reverse) :
      x ∈ table.rows := (List.mem_filter.mp (List.mem_reverse.mp hx)).1
  simp only [decide_eq_true_eq] at hba hab
  exact eq_of_id_eq (hrow (hperm.mem_iff.mp ha)) (hrow hb) (by omega)

/-- The rows within a limit are the first ones among those within a larger one. -/
theorem window_isPrefix (table : RunTable) (name : Bytes) {a b : Int} (ha : 0 < a) (hab : a ≤ b) :
    table.window name a <+: table.window name b := by
  rw [window, window, if_pos ha, if_pos (by omega)]
  exact List.take_prefix_take_left (by omega)

end RunTable

namespace Database

variable {db : Database} {table : RunTable}

/-- The rows that are read are those within the limit. -/
theorem runs_eq_mapM (htable : db.history = some table) (name : Bytes) (limit : Int) :
    db.runs name limit = (table.window name limit).mapM RunRow.toRun := by
  rw [runs, htable, RunTable.window, RunTable.newestFirst_eq]
  rfl

end Database

/-! ## Reading the history -/

namespace RunRow

variable {rows : List RunRow} {runs : List Run} {e : StoreError}

/-- Rows are read as the runs that they stand for. -/
theorem denotes_of_mapM (h : rows.mapM toRun = .ok runs) :
    (∀ row ∈ rows, row.Readable) ∧ List.Forall₂ Denotes rows runs := by
  obtain ⟨runs', hruns, hall, hread⟩ | ⟨newer, row, older, e, -, -, -, hfails⟩ :=
    mapM_cases toRun rows
  · rw [hruns] at h
    cases h
    exact ⟨fun row hrow => readable_iff.mpr (hall row hrow), hread.imp fun _ _ => denotes_of_toRun⟩
  · rw [hfails] at h
    cases h

/-- Rows can be read if each of them can. -/
theorem exists_mapM_iff : (∃ runs, rows.mapM toRun = .ok runs) ↔ ∀ row ∈ rows, row.Readable := by
  constructor
  · rintro ⟨runs, h⟩
    exact (denotes_of_mapM h).1
  · intro hall
    obtain ⟨runs, hruns, -⟩ | ⟨newer, row, older, e, rfl, -, hrow, -⟩ := mapM_cases toRun rows
    · exact ⟨runs, hruns⟩
    · obtain ⟨run, hrun⟩ := readable_iff.mp (hall row (by simp))
      rw [hrow] at hrun
      cases hrun

/-- If rows cannot be read, the first such row is blamed for its time. -/
theorem exists_of_mapM_eq_error (h : rows.mapM toRun = .error e) :
    ∃ newer row older cause, rows = newer ++ row :: older ∧ (∀ r ∈ newer, r.Readable) ∧
      Rfc3339.read row.time = .error cause ∧ e = .badTime row.time cause := by
  obtain ⟨runs, hruns, -⟩ | ⟨newer, row, older, e', rfl, hnewer, hrow, hfails⟩ :=
    mapM_cases toRun rows
  · rw [hruns] at h
    cases h
  · rw [hfails] at h
    cases h
    obtain ⟨cause, hcause, rfl⟩ := exists_of_toRun_eq_error hrow
    exact ⟨newer, row, older, cause, rfl, fun r hr => readable_iff.mpr (hnewer r hr), hcause, rfl⟩

end RunRow

/-- **The history of a name is read up to the limit.** Let a store hold a database with a table of
runs, whose times may be any texts. The rows within the limit are those of the name by decreasing
number, cut to the limit if this is positive. All of them are read, in this order, if and only if
the time of each one is a timestamp; otherwise the error quotes the time of the first one that is
not. So a larger limit only adds to what is read, and an older row never stands in the way of the
newer ones. -/
theorem history_is_cut_by_limit {store : Store} {disk : Disk} {db : Database} {table : RunTable}
    (hholds : store.Holds disk db) (htable : db.history = some table) (name : Bytes) :
    (∀ limit : Int,
      ((∃ runs, store.runs disk name limit = .ok runs) ↔
        ∀ row ∈ table.window name limit, row.Readable) ∧
      (∀ runs, store.runs disk name limit = .ok runs →
        List.Forall₂ RunRow.Denotes (table.window name limit) runs) ∧
      ∀ e, store.runs disk name limit = .error e → ∃ newer row older cause,
        table.window name limit = newer ++ row :: older ∧ (∀ r ∈ newer, r.Readable) ∧
        Rfc3339.read row.time = .error cause ∧ e = .badTime row.time cause ∧
        text "run timestamp " ++ quoted row.time <+: e.message) ∧
    (∀ (a b : Int) (xs ys : List Run), 0 < a → a ≤ b → store.runs disk name a = .ok xs →
      store.runs disk name b = .ok ys → xs <+: ys) ∧
    ∀ newer older : List RunRow, table.newestFirst name = newer ++ older → newer ≠ [] →
      (∀ row ∈ newer, row.Readable) → ∃ xs, store.runs disk name newer.length = .ok xs ∧
        List.Forall₂ RunRow.Denotes newer xs := by
  have hread (limit : Int) : store.runs disk name limit =
      (table.window name limit).mapM RunRow.toRun := by
    rw [Store.runs, hholds.query, Database.runs_eq_mapM htable]
  simp only [hread]
  refine ⟨?_, ?_, ?_⟩
  · intro limit
    refine ⟨RunRow.exists_mapM_iff, fun runs h => (RunRow.denotes_of_mapM h).2, ?_⟩
    intro e h
    obtain ⟨newer, row, older, cause, hrows, hnewer, hcause, rfl⟩ :=
      RunRow.exists_of_mapM_eq_error h
    refine ⟨newer, row, older, cause, hrows, hnewer, hcause, rfl, ?_⟩
    rw [StoreError.message, List.append_assoc]
    exact List.prefix_append _ _
  · intro a b xs ys ha hab hxs hys
    exact isPrefix_of_mapM (table.window_isPrefix name ha hab) hxs hys
  · intro newer older hrows hne hnewer
    have hpos : (0 : Int) < newer.length := by
      have := List.length_pos_of_ne_nil hne
      omega
    have hwindow : table.window name newer.length = newer := by
      rw [RunTable.window, if_pos hpos, hrows, Int.toNat_natCast, List.take_left]
    rw [hwindow]
    obtain ⟨xs, hxs⟩ := RunRow.exists_mapM_iff.mpr hnewer
    exact ⟨xs, hxs, (RunRow.denotes_of_mapM hxs).2⟩

/-- Of three rows the oldest and the newest belong to one name, and the time of the oldest one is no
timestamp: a limit of one reads the newest, and without a limit the oldest is blamed. -/
theorem history_is_cut_by_limit_before_unreadable :
    let newest : RunRow := ⟨3, text "a", 3, 3, 3, text "2024-02-29T12:30:00Z"⟩
    let oldest : RunRow := ⟨-1, text "a", 1, 1, 1, text "long ago"⟩
    let table : RunTable :=
      { rows := [oldest, ⟨2, text "b", 2, 2, 2, text "?"⟩, newest], lastId := 3 }
    let db : Database := { history := some table }
    let store : Store := .scratch db true
    store.Holds {} db ∧
      (∃ xs, store.runs {} (text "a") 1 = .ok xs ∧ List.Forall₂ RunRow.Denotes [newest] xs) ∧
      ¬∃ xs, store.runs {} (text "a") 0 = .ok xs := by
  intro newest oldest table db store
  have hrows : table.newestFirst (text "a") = [newest] ++ [oldest] := by
    rw [RunTable.newestFirst_eq]
    rfl
  obtain ⟨hlimits, -, hnewer⟩ := history_is_cut_by_limit (.scratch {} db) rfl (text "a")
  refine ⟨.scratch {} db, hnewer _ _ hrows (by simp) ?_, ?_⟩
  · intro row hrow
    rw [List.mem_singleton.mp hrow]
    exact ⟨⟨2024, 2, 29, 12, 30, 0, 0, 0⟩, by decide⟩
  · rw [(hlimits 0).1, RunTable.window, if_neg (by decide), hrows]
    intro hall
    obtain ⟨time, htime⟩ := hall oldest (by simp)
    cases htime

end Brainfuck
