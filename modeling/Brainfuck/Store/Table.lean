import Brainfuck.Bytes

/-!
# Tables

A table has a value for each of its keys. It is a list of rows in the order in which the keys were
set first.

## Main Definitions

* `KeyTable` — the rows, in which no key occurs twice
* `KeyTable.lookup`, `KeyTable.keys` — the value of a key, and all keys
* `KeyTable.set`, `KeyTable.remove` — the changes to a table
* `TextTable` — a table of texts
-/

namespace Brainfuck

/-- Values by key. No key occurs twice. -/
@[ext]
structure KeyTable (α : Type) where
  rows : List (Bytes × α) := []
  nodup : (rows.map (·.1)).Nodup := by decide
  deriving DecidableEq, Repr

/-- A table of texts. -/
abbrev TextTable := KeyTable Bytes

namespace KeyTable

variable {α : Type}

/-- A table without rows. -/
def empty : KeyTable α where
  rows := []
  nodup := List.nodup_nil

/-- The keys of a table. -/
def keys (t : KeyTable α) : List Bytes :=
  t.rows.map (·.1)

/-- The value of a key, if the table has one. -/
def lookup (t : KeyTable α) (key : Bytes) : Option α :=
  t.rows.lookup key

/-- Removes a key. -/
def remove (t : KeyTable α) (key : Bytes) : KeyTable α where
  rows := t.rows.filter (·.1 != key)
  nodup := t.nodup.sublist (List.filter_sublist.map _)

/-- The rows of a table with another value for a key, in place if the key exists. -/
def setRows (rows : List (Bytes × α)) (key : Bytes) (value : α) : List (Bytes × α) :=
  if key ∈ rows.map (·.1) then rows.map fun row => if row.1 == key then (key, value) else row
  else rows ++ [(key, value)]

/-- Setting a key adds it to the keys unless it is one. -/
theorem keys_setRows (rows : List (Bytes × α)) (key : Bytes) (value : α) :
    (setRows rows key value).map (·.1) =
      if key ∈ rows.map (·.1) then rows.map (·.1) else rows.map (·.1) ++ [key] := by
  unfold setRows
  split
  · rw [List.map_map]
    apply List.map_congr_left
    intro row _
    by_cases hrow : row.1 = key <;> simp [hrow]
  · rw [List.map_append, List.map_singleton]

theorem nodup_setRows {rows : List (Bytes × α)} (h : (rows.map (·.1)).Nodup) (key : Bytes)
    (value : α) : ((setRows rows key value).map (·.1)).Nodup := by
  rw [keys_setRows]
  split
  · exact h
  next hkey => exact nodup_append_key h hkey

/-- Sets the value of a key. -/
def set (t : KeyTable α) (key : Bytes) (value : α) : KeyTable α where
  rows := setRows t.rows key value
  nodup := nodup_setRows t.nodup key value

end KeyTable

end Brainfuck
