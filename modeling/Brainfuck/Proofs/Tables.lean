import Brainfuck.Store.Shelf
import Brainfuck.Toml.Document

/-!
# Tables as maps

A table is a list of rows, yet it is used as a map. Here is what the changes to it do to the map,
and so what the changes to a shelf do to its tables, and how keys are listed.

## Main Results

* `KeyTable.lookup_set`, `KeyTable.lookup_remove` — the map after a change
* `KeyTable.mem_keys_iff` — the keys of the map
* `Shelf.get?_put`, `Shelf.filed_record`, `Shelf.filed_delete` — a shelf after a change
* `Toml.Table.lookup_set`, `Toml.Table.nodup_entries` — the same for the tables of a document
* `pairwise_sortTexts`, `mem_sortTexts` — sorting lists every text once, in increasing order
* `eq_of_increasing` — a set of texts is listed in increasing order in only one way
-/

namespace Brainfuck

namespace KeyTable

variable {α : Type} {rows : List (Bytes × α)} {key name : Bytes} {value : α}

theorem mem_map_fst_iff : name ∈ rows.map (·.1) ↔ (rows.lookup name).isSome = true := by
  rw [List.lookup_isSome_iff]
  constructor
  · intro h
    obtain ⟨row, hrow, rfl⟩ := List.mem_map.mp h
    exact ⟨row, hrow, beq_self_eq_true row.1⟩
  · rintro ⟨row, hrow, heq⟩
    exact List.mem_map.mpr ⟨row, hrow, (eq_of_beq heq).symm⟩

theorem mem_keys_iff {t : KeyTable α} : name ∈ t.keys ↔ (t.lookup name).isSome = true :=
  mem_map_fst_iff

/-! ### Removing a key -/

theorem lookup_filter (rows : List (Bytes × α)) (key name : Bytes) :
    (rows.filter (·.1 != key)).lookup name = if name = key then none else rows.lookup name := by
  induction rows with
  | nil => simp
  | cons row rows ih =>
      obtain ⟨k, v⟩ := row
      by_cases hk : k = key
      · subst hk
        rw [List.filter_cons_of_neg (by simp), ih]
        by_cases hname : name = k
        · simp [hname]
        · simp [hname, List.lookup_cons, beq_false_of_ne hname]
      · rw [List.filter_cons_of_pos (by simpa using hk), List.lookup_cons, List.lookup_cons, ih]
        by_cases hname : name = k
        · subst hname
          simp [hk]
        · simp [beq_false_of_ne hname]

theorem lookup_remove (t : KeyTable α) (key name : Bytes) :
    (t.remove key).lookup name = if name = key then none else t.lookup name :=
  lookup_filter t.rows key name

/-! ### Setting a key -/

theorem lookup_replace_of_ne (rows : List (Bytes × α)) (value : α) (hname : name ≠ key) :
    (rows.map fun row => if row.1 == key then (key, value) else row).lookup name =
      rows.lookup name := by
  induction rows with
  | nil => rfl
  | cons row rows ih =>
      obtain ⟨k, v⟩ := row
      rw [List.map_cons, List.lookup_cons, List.lookup_cons, ih]
      by_cases hk : k = key
      · simp [hk, beq_false_of_ne hname]
      · simp [hk]

theorem lookup_replace_self (h : key ∈ rows.map (·.1)) :
    (rows.map fun row => if row.1 == key then (key, value) else row).lookup key = some value := by
  induction rows with
  | nil => cases h
  | cons row rows ih =>
      obtain ⟨k, v⟩ := row
      by_cases hk : k = key
      · simp [hk]
      · have htail : key ∈ rows.map (·.1) := (List.mem_cons.mp h).resolve_left (Ne.symm hk)
        have hhead : (key == k) = false := beq_false_of_ne (Ne.symm hk)
        simp only [List.map_cons, beq_false_of_ne hk, Bool.false_eq_true, if_false,
          List.lookup_cons, hhead]
        exact ih htail

theorem lookup_set (t : KeyTable α) (key : Bytes) (value : α) (name : Bytes) :
    (t.set key value).lookup name = if name = key then some value else t.lookup name := by
  unfold lookup set setRows
  split
  next hkey =>
    by_cases hname : name = key
    · rw [hname, lookup_replace_self hkey, if_pos rfl]
    · rw [lookup_replace_of_ne t.rows value hname, if_neg hname]
  next hkey =>
    have hnone : t.rows.lookup key = none := by
      rw [mem_map_fst_iff] at hkey
      exact Option.not_isSome_iff_eq_none.mp hkey
    rw [List.lookup_append]
    by_cases hname : name = key
    · subst hname
      simp [hnone]
    · simp [hname, List.lookup_cons, beq_false_of_ne hname]

/-- The rows of a table after a change are the new one and some of the old ones. -/
theorem mem_rows_set {t : KeyTable α} {row : Bytes × α} (h : row ∈ (t.set key value).rows) :
    row = (key, value) ∨ row ∈ t.rows := by
  unfold set setRows at h
  dsimp only at h
  split at h
  · obtain ⟨old, hold, rfl⟩ := List.mem_map.mp h
    split
    · exact .inl rfl
    · exact .inr hold
  · obtain hold | hnew := List.mem_append.mp h
    · exact .inr hold
    · exact .inl (List.mem_singleton.mp hnew)

end KeyTable

/-! ### Shelves -/

namespace Shelf

theorem get?_put (s : Shelf) (key source name : Bytes) :
    (s.put key source).get? name = if name = key then some source else s.get? name :=
  KeyTable.lookup_set s.programs key source name

/-- The runs under a name after one more. -/
theorem filed_record (s : Shelf) (run : Run) (now : Timestamp) (name : Bytes) :
    (s.record run now).filed name =
      if run.name = name then s.filed name ++ [run.stamped now] else s.filed name := by
  rw [filed, record, KeyTable.lookup_set]
  by_cases hname : name = run.name
  · rw [if_pos hname, if_pos hname.symm, hname, Option.getD_some]
  · rw [if_neg hname, if_neg (Ne.symm hname), filed]

/-- The runs under a name after the runs under a name are gone. -/
theorem filed_delete (s : Shelf) (removed name : Bytes) :
    (s.delete removed).filed name = if removed = name then [] else s.filed name := by
  rw [filed, delete, KeyTable.lookup_remove]
  by_cases hname : name = removed
  · rw [if_pos hname, if_pos hname.symm, Option.getD_none]
  · rw [if_neg hname, if_neg (Ne.symm hname), filed]

end Shelf

/-! ### Tables of a document -/

namespace Toml.Table

/-- The map after a change. -/
theorem lookup_set (t : Table) (key : Bytes) (value : Value) (name : Bytes) :
    (t.set key value).lookup name = if name = key then some value else t.lookup name := by
  obtain ⟨keys, nodup, values⟩ := t
  unfold set lookup
  dsimp only
  by_cases hkey : key ∈ keys
  · rw [dif_pos hkey]
    by_cases hname : name = key
    · subst hname
      simp [hkey]
    · simp [hname]
  · rw [dif_neg hkey]
    by_cases hname : name = key
    · subst hname
      simp [hkey]
    · by_cases hmem : name ∈ keys
      · simp [hname, hmem]
      · simp [hname, hmem]

/-- No key is listed twice. -/
theorem nodup_entries (t : Table) : (t.entries.map (·.1)).Nodup := by
  obtain ⟨keys, nodup, values⟩ := t
  have hkeys : (entries (.mk keys nodup values)).map (·.1) = keys := by
    rw [entries, List.map_map]
    exact List.attach_map_subtype_val keys
  rw [hkeys]
  exact nodup

/-- The entries are those of the map. -/
theorem mem_entries {t : Table} {key : Bytes} {value : Value} :
    (key, value) ∈ t.entries ↔ t.lookup key = some value := by
  obtain ⟨keys, nodup, values⟩ := t
  simp [entries, lookup]

end Toml.Table

/-! ### Texts in order -/

theorem mem_sortTexts {ts : List Bytes} {name : Bytes} : name ∈ sortTexts ts ↔ name ∈ ts :=
  (List.mergeSort_perm ts _).mem_iff

theorem pairwise_sortTexts {ts : List Bytes} (h : ts.Nodup) : (sortTexts ts).Pairwise (· < ·) := by
  have hsorted : (sortTexts ts).Pairwise fun a b => decide (a ≤ b) = true := by
    apply List.pairwise_mergeSort
    · intro a b c hab hbc
      simp only [decide_eq_true_eq] at *
      exact List.le_trans hab hbc
    · intro a b
      simpa using List.le_total a b
  have hnodup : (sortTexts ts).Nodup := (List.mergeSort_perm ts _).nodup_iff.mpr h
  refine hsorted.imp₂ ?_ hnodup
  intro a b hle hne
  simp only [decide_eq_true_eq] at hle
  exact Decidable.byContradiction fun hlt => hne (List.le_antisymm hle hlt)

/-- A set of texts is listed in increasing order in only one way. -/
theorem eq_of_increasing {ts us : List Bytes} (ht : ts.Pairwise (· < ·)) (hu : us.Pairwise (· < ·))
    (h : ∀ name, name ∈ ts ↔ name ∈ us) : ts = us := by
  have hne {a b : Bytes} (hab : a < b) : a ≠ b := by
    rintro rfl
    exact List.lt_irrefl a hab
  have hperm : ts.Perm us :=
    (List.perm_ext_iff_of_nodup (ht.imp hne) (hu.imp hne)).mpr h
  refine hperm.eq_of_pairwise ?_ ht hu
  intro a b _ _ hab hba
  exact absurd (List.lt_trans hab hba) (List.lt_irrefl a)

end Brainfuck
