import Brainfuck.Proofs.Decimals
import Brainfuck.Store.Archive

/-!
# Reading archives

A database is read back from the bytes that were written for it. Every part of an archive is read
from the front of what is left, so each reader is stated for what its writer has put there and any
rest behind.

## Main Results

* `Numeral.ofSigned?_signed` — an integer is read back from its digits and sign
* `Archive.readField?_append` — a field is read back, whatever bytes it holds
* `Archive.readTextTable?_append`, `Archive.readRunTable?_append` — tables are read back, or missed
* `Archive.read?_write` — a database is read back
-/

namespace Brainfuck

/-! ## Numbers -/

theorem decimal_ne_nil (n : Nat) : decimal n ≠ [] := by
  by_cases hn : n < 10
  · rw [decimal_of_lt hn]
    exact List.cons_ne_nil _ _
  · rw [decimal_of_le (Nat.not_lt.mp hn)]
    exact List.append_ne_nil_of_right_ne_nil _ (List.cons_ne_nil _ _)

namespace Numeral

theorem ofSigned?_of_digits {digits : Bytes} (hne : digits ≠ [])
    (hdigits : ∀ b ∈ digits, isDigit b = true) :
    ofSigned? digits = some (Brainfuck.ofDecimal digits : Int) ∧
      ofSigned? (0x2D :: digits) = some (-(Brainfuck.ofDecimal digits : Int)) := by
  have hall : digits.all isDigit = true := List.all_eq_true.mpr hdigits
  have hsplit : splitSign digits = (false, digits) := by
    unfold splitSign
    split
    · exact absurd (hdigits 0x2B List.mem_cons_self) (by decide)
    · exact absurd (hdigits 0x2D List.mem_cons_self) (by decide)
    · rfl
  constructor
  · simp [ofSigned?, hsplit, hall, hne, withSign]
  · simp [ofSigned?, splitSign, hall, hne, withSign]

theorem ofSigned?_decimal (n : Nat) : ofSigned? (decimal n) = some (n : Int) := by
  rw [(ofSigned?_of_digits (decimal_ne_nil n) isDigit_of_mem_decimal).1, ofDecimal_decimal]

/-- An integer is read back from its digits and sign. -/
theorem ofSigned?_signed (i : Int) : ofSigned? (signed i) = some i := by
  cases i with
  | ofNat n => exact ofSigned?_decimal n
  | negSucc n =>
      rw [signed, (ofSigned?_of_digits (decimal_ne_nil _) isDigit_of_mem_decimal).2,
        ofDecimal_decimal]
      rfl

/-- A word is read back. -/
theorem ofDecimal?_signed (x : Int64) : ofDecimal? (signed x.toInt) = some x.toInt := by
  have hle := x.le_toInt
  have hlt := x.toInt_lt
  have hword : isWord x.toInt = true := by
    rw [isWord, Bool.and_eq_true]
    exact ⟨decide_eq_true hle, decide_eq_true (Int.le_sub_one_of_lt hlt)⟩
  rw [ofDecimal?, ofSigned?_signed, Option.filter_some, if_pos hword]

end Numeral

namespace Archive

theorem readCount?_decimal (n : Nat) : readCount? (decimal n) = some n := by
  rw [readCount?, Numeral.ofSigned?_decimal]
  rfl

theorem readWord?_signed (x : Int64) : readWord? (signed x.toInt) = some x := by
  rw [readWord?, Numeral.ofDecimal?_signed, Option.map_some, Int64.ofInt_toInt]

/-! ## Fields -/

/-- A field is read back, whatever bytes it holds. -/
theorem readField?_append (field rest : Bytes) :
    readField? (writeField field ++ rest) = some (field, rest) := by
  have hbytes : writeField field ++ rest = decimal field.length ++ 0x3A :: (field ++ rest) := by
    rw [writeField, List.append_assoc, List.cons_append]
  have hdigits : (decimal field.length ++ 0x3A :: (field ++ rest)).takeWhile isDigit =
      decimal field.length := by
    rw [List.takeWhile_append_of_pos isDigit_of_mem_decimal,
      List.takeWhile_cons_of_neg (by decide), List.append_nil]
  have hdrop : (decimal field.length ++ 0x3A :: (field ++ rest)).drop
      ((decimal field.length).length + 1) = field ++ rest := by
    rw [List.drop_length_add_append]
    rfl
  simp [readField?, hbytes, hdigits, hdrop, ofDecimal_decimal, decimal_ne_nil]

theorem writeField_ne_nil (field : Bytes) : writeField field ≠ [] :=
  List.append_ne_nil_of_right_ne_nil _ (List.cons_ne_nil _ _)

theorem readFields?_flatMap {fields : List Bytes} {budget : Nat} (h : fields.length ≤ budget) :
    readFields? budget (fields.flatMap writeField) = some fields := by
  induction fields generalizing budget with
  | nil => cases budget <;> rfl
  | cons field fields ih =>
      obtain ⟨budget, rfl⟩ := Nat.exists_eq_add_one_of_ne_zero (Nat.ne_zero_of_lt h)
      rw [List.flatMap_cons, readFields?, if_neg (by simp [writeField_ne_nil]), readField?_append]
      simp [ih (Nat.le_of_succ_le_succ h)]

theorem length_le_flatMap (fields : List Bytes) :
    fields.length ≤ (fields.flatMap writeField).length := by
  induction fields with
  | nil => exact Nat.le_refl 0
  | cons field fields ih =>
      rw [List.flatMap_cons, List.length_append, List.length_cons, writeField, List.length_append,
        List.length_cons]
      omega

/-! ## Tables -/

theorem readTexts?_append (rows : List (Bytes × Bytes)) (rest : List Bytes) :
    readTexts? rows.length (rows.flatMap textRowFields ++ rest) = some (rows, rest) := by
  induction rows with
  | nil => rfl
  | cons row rows ih =>
      rw [List.flatMap_cons, List.append_assoc, List.length_cons]
      simp [textRowFields, readTexts?, ih]

theorem readRows?_append (rows : List RunRow) (rest : List Bytes) :
    readRows? rows.length (rows.flatMap rowFields ++ rest) = some (rows, rest) := by
  induction rows with
  | nil => rfl
  | cons row rows ih =>
      rw [List.flatMap_cons, List.append_assoc, List.length_cons]
      simp [rowFields, readRows?, Numeral.ofSigned?_signed, readWord?_signed, ih]

/-- A table of texts is read back, and where there is none nothing is read. -/
theorem readTextTable?_append (table : Table) (found : Option TextTable) {rest : List Bytes}
    (hrest : rest.head? ≠ some (text table.name)) :
    readTextTable? table (textFields table found ++ rest) = some (found, rest) := by
  cases found with
  | none =>
      show readTextTable? table rest = some (none, rest)
      unfold readTextTable?
      split
      next name count rest' =>
        have hname : name ≠ text table.name := fun heq => hrest (congrArg some heq)
        rw [if_neg (by simpa using hname)]
      · rfl
  | some t =>
      simp [textFields, readTextTable?, readCount?_decimal, readTexts?_append, t.nodup]

/-- The table of runs is read back, and where there is none nothing is read. -/
theorem readRunTable?_append (found : Option RunTable) {rest : List Bytes}
    (hrest : rest.head? ≠ some (text Table.runs.name)) :
    readRunTable? (runFields found ++ rest) = some (found, rest) := by
  cases found with
  | none =>
      show readRunTable? rest = some (none, rest)
      unfold readRunTable?
      split
      next name lastId count rest' =>
        have hname : name ≠ text Table.runs.name := fun heq => hrest (congrArg some heq)
        rw [if_neg (by simpa using hname)]
      · rfl
  | some t =>
      simp [runFields, readRunTable?, Numeral.ofSigned?_signed, readCount?_decimal,
        readRows?_append, t.sorted]
      exact t.bounded

/-! ## Databases -/

theorem text_name_ne {a b : Table} (h : a ≠ b) : text a.name ≠ text b.name := by
  cases a <;> cases b <;> first | exact absurd rfl h | decide

/-- No field of a table can be taken for the start of another one. -/
theorem head?_textFields_ne {table other : Table} (hne : table ≠ other) (found : Option TextTable)
    {rest : List Bytes} (hrest : rest.head? ≠ some (text other.name)) :
    (textFields table found ++ rest).head? ≠ some (text other.name) := by
  cases found with
  | none => exact hrest
  | some t => exact fun heq => text_name_ne hne (Option.some.inj heq)

theorem head?_runFields_ne {other : Table} (hne : Table.runs ≠ other) (found : Option RunTable)
    {rest : List Bytes} (hrest : rest.head? ≠ some (text other.name)) :
    (runFields found ++ rest).head? ≠ some (text other.name) := by
  cases found with
  | none => exact hrest
  | some t => exact fun heq => text_name_ne hne (Option.some.inj heq)

theorem ofFields?_fieldsOf (db : Database) : ofFields? (fieldsOf db) = some db := by
  have hempty {name : Bytes} : ([] : List Bytes).head? ≠ some name := nofun
  have hmetadata := readTextTable?_append .metadata db.metadata hempty
  have hruns := readRunTable?_append db.history
    (head?_textFields_ne (show Table.metadata ≠ .runs by decide) db.metadata hempty)
  have hprograms := readTextTable?_append .programs db.programs
    (head?_runFields_ne (by decide) db.history
      (head?_textFields_ne (show Table.metadata ≠ .programs by decide) db.metadata hempty))
  rw [List.append_nil] at hmetadata hruns hprograms
  simp [ofFields?, fieldsOf, hprograms, hruns, hmetadata]

/-- **A database is read back** from the bytes that were written for it. -/
theorem read?_write (db : Database) : read? (write db) = some db := by
  have hmark : mark.isPrefixOf (write db) = true :=
    List.isPrefixOf_iff_prefix.mpr (List.prefix_append mark _)
  rw [read?, if_pos hmark, write, List.drop_left]
  dsimp only
  rw [readFields?_flatMap (length_le_flatMap _), Option.bind_some, ofFields?_fieldsOf]

end Archive

end Brainfuck
