import Brainfuck.Source

/-!
# Scanning

How the commands of a source come from its bytes: where they stand, and what further bytes at the
end add to them.

## Main Definitions

* `Cursor.scan` — the cursor after some bytes
* `StartsAscii` — texts whose first byte, if there is one, is an ASCII byte

## Main Results

* `isKnown_of_mem_commands` — every command has a line and a column
* `commands_append` — an ASCII text at the end changes none of the commands before it

## Design Notes

How many bytes a rune takes depends on the bytes after it. An ASCII byte never continues a rune, so
a text that starts with one can be cut off without changing the runes before it.
-/

namespace Brainfuck

/-! ## Positions -/

theorem Cursor.read_line_pos {c : Cursor} (h : 0 < c.line) (b : UInt8) (rest : Bytes) :
    0 < (c.read b rest).1.line := by
  unfold Cursor.read
  split
  · exact h
  · split
    · exact Nat.succ_pos c.line
    · exact h

theorem isKnown_of_mem_commandsFrom {c : Cursor} (hc : 0 < c.line) {s : Bytes}
    {x : Command × Position} (hx : x ∈ commandsFrom c s) : x.2.isKnown = true := by
  induction s generalizing c with
  | nil => simp [commandsFrom] at hx
  | cons b rest ih =>
      have hline := Cursor.read_line_pos hc b rest
      rw [commandsFrom] at hx
      generalize c.read b rest = step at hx hline
      obtain ⟨c', _ | command⟩ := step
      · exact ih hline hx
      · rcases List.mem_cons.mp hx with rfl | hx
        · simpa [Position.isKnown, Cursor.here] using hline
        · exact ih hline hx

/-- Every command of a source has a line and a column. -/
theorem isKnown_of_mem_commands {s : Bytes} {x : Command × Position} (hx : x ∈ commands s) :
    x.2.isKnown = true :=
  isKnown_of_mem_commandsFrom Nat.one_pos hx

/-! ## Runes before an ASCII byte -/

/-- A text whose first byte, if there is one, is an ASCII byte. -/
def StartsAscii (t : Bytes) : Prop :=
  ∀ b ∈ t.head?, b < 0x80

namespace Rune

theorem isTail_of_ascii {c : UInt8} (h : c < 0x80) : isTail c = false := by
  simp [isTail, UInt8.not_le.mpr h]

theorem isSecond_of_ascii (b : UInt8) {c : UInt8} (h : c < 0x80) : isSecond b c = false := by
  have hlow : (0x80 : UInt8) ≤
      if b = 0xE0 then (0xA0 : UInt8) else if b = 0xF0 then 0x90 else 0x80 := by
    split
    · decide
    · split <;> decide
  simp [isSecond, UInt8.not_le.mpr (UInt8.lt_of_lt_of_le h hlow)]

/-- The width of a rune does not depend on a text after it that starts with an ASCII byte. -/
theorem width_append (b : UInt8) (rest : Bytes) {t : Bytes} (ht : StartsAscii t) :
    width b (rest ++ t) = width b rest := by
  cases t with
  | nil => rw [List.append_nil]
  | cons x t =>
      have hx : x < 0x80 := ht x rfl
      have htail := isTail_of_ascii hx
      have hsecond := isSecond_of_ascii b hx
      -- a rune looks at three more bytes at most, and it breaks off at the first ASCII byte
      match rest with
      | [] =>
          cases t with
          | nil => simp [width, hsecond]
          | cons y t => cases t <;> simp [width, hsecond]
      | [c] => cases t <;> simp [width, htail]
      | [c, d] => simp [width, htail]
      | c :: d :: e :: rest => simp [width]

theorem width_le (b : UInt8) (rest : Bytes) : width b rest - 1 ≤ rest.length := by
  unfold width
  repeat' split
  all_goals simp

end Rune

/-! ## Texts at the end -/

namespace Cursor

/-- The cursor after some bytes. -/
def scan (c : Cursor) : Bytes → Cursor
  | [] => c
  | b :: rest => scan (c.read b rest).1 rest

theorem read_append (c : Cursor) (b : UInt8) (rest : Bytes) {t : Bytes} (ht : StartsAscii t) :
    c.read b (rest ++ t) = c.read b rest := by
  simp only [read, Rune.width_append b rest ht]

theorem read_owed_le {c : Cursor} {b : UInt8} {rest : Bytes} (h : c.owed ≤ rest.length + 1) :
    (c.read b rest).1.owed ≤ rest.length := by
  unfold read
  split
  next owed howed =>
    rw [howed] at h
    exact Nat.le_of_succ_le_succ h
  next =>
    split
    · exact Nat.zero_le _
    · exact Rune.width_le b rest

/-- A rune that began before the end has ended by then. -/
theorem scan_owed {c : Cursor} {s : Bytes} (h : c.owed ≤ s.length) : (c.scan s).owed = 0 := by
  induction s generalizing c with
  | nil => exact Nat.eq_zero_of_le_zero h
  | cons b rest ih => exact ih (read_owed_le h)

end Cursor

theorem commandsFrom_append (c : Cursor) (s : Bytes) {t : Bytes} (ht : StartsAscii t) :
    commandsFrom c (s ++ t) = commandsFrom c s ++ commandsFrom (c.scan s) t := by
  induction s generalizing c with
  | nil => rfl
  | cons b rest ih =>
      rw [List.cons_append, commandsFrom, Cursor.read_append c b rest ht, commandsFrom,
        Cursor.scan]
      generalize c.read b rest = step
      obtain ⟨c', _ | command⟩ := step
      · exact ih c'
      · exact congrArg ((command, c'.here) :: ·) (ih c')

/-- An ASCII text at the end changes none of the commands before it. -/
theorem commands_append (s : Bytes) {t : Bytes} (ht : StartsAscii t) :
    commands (s ++ t) = commands s ++ commandsFrom (Cursor.start.scan s) t :=
  commandsFrom_append Cursor.start s ht

/-- Closing brackets at the end are commands. -/
theorem commandsFrom_closers {c : Cursor} (hc : c.owed = 0) (n : Nat) :
    (commandsFrom c (List.replicate n 0x5D)).map Prod.fst = List.replicate n .loopEnd := by
  induction n generalizing c with
  | zero => rfl
  | succ n ih =>
      obtain ⟨line, column, owed⟩ := c
      cases hc
      rw [List.replicate_succ, commandsFrom, List.replicate_succ]
      have hread : (⟨line, column, 0⟩ : Cursor).read 0x5D (List.replicate n 0x5D) =
          (⟨line, column + 1, 0⟩, some .loopEnd) := rfl
      rw [hread, List.map_cons, ih rfl]

theorem startsAscii_closers (n : Nat) : StartsAscii (List.replicate n 0x5D) := by
  intro b hb
  cases n with
  | zero => cases hb
  | succ n =>
      cases hb
      decide

end Brainfuck
