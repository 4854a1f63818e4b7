import Brainfuck.Proofs.Runes

/-!
# Positions of commands

A scanner goes through a source rune by rune, and yet what it finds can be told from the bytes: one
item for each byte that is a command, in a line that is counted by line feeds and a column that is
counted by runes.

## Main Definitions

* `lastLine` — what a text has after its last line feed
* `Position.behind` — the position of what follows a text
* `Position.Before` — the order of positions
* `commandOffsets` — the bytes of a source that are commands
* `Scanner.itemAt` — what a scanner finds, by the number of the call

## Main Results

* `Cursor.scan_start` — the cursor after a text
* `commands_eq`, `map_fst_commands` — the commands of a source, with and without their positions
* `commands_symbol`, `exists_cut_of_commands` — the bytes before and after a command
* `Scanner.itemAt_eq` — the calls of a scanner
* `scanner_follows_bytes` — all that a scanner finds

## Design Notes

In the middle of a rune a cursor is ahead of the bytes that it has read, since the width of the rune
depends on the bytes to come. It has caught up before every ASCII byte, and commands and line feeds
are ASCII, so the inductions cut a text at its last command or line feed.
-/

namespace Brainfuck

/-- A text can be cut at the last of its bytes that is of some kind. -/
theorem exists_last (p : UInt8 → Prop) (t : Bytes) :
    (∀ b ∈ t, ¬ p b) ∨ ∃ s b rest, t = s ++ b :: rest ∧ p b ∧ ∀ x ∈ rest, ¬ p x := by
  induction t with
  | nil => exact .inl (by simp)
  | cons b t ih =>
      obtain hnone | ⟨s, x, rest, rfl, hx, hrest⟩ := ih
      · by_cases hb : p b
        · exact .inr ⟨[], b, t, rfl, hb, hnone⟩
        · exact .inl (List.forall_mem_cons.mpr ⟨hb, hnone⟩)
      · exact .inr ⟨b :: s, x, rest, rfl, hx, hrest⟩

theorem startsAscii_cons {b : UInt8} (h : b < 0x80) (t : Bytes) : StartsAscii (b :: t) := by
  rintro x ⟨⟩
  exact h

/-! ## Lines -/

/-- What a text has after its last line feed. -/
def lastLine (t : Bytes) : Bytes :=
  (t.reverse.takeWhile (· != 0x0A)).reverse

/-- A text without a line feed adds to the last line. -/
theorem lastLine_append (s : Bytes) {t : Bytes} (h : 0x0A ∉ t) :
    lastLine (s ++ t) = lastLine s ++ t := by
  have hall : ∀ b ∈ t.reverse, (b != 0x0A) = true := by
    intro b hb
    have hne : b ≠ 0x0A := ne_of_mem_of_not_mem (List.mem_reverse.mp hb) h
    simpa using hne
  rw [lastLine, List.reverse_append, List.takeWhile_append_of_pos hall, List.reverse_append,
    List.reverse_reverse, lastLine]

/-- A line feed starts a line. -/
theorem lastLine_lineFeed (s : Bytes) {t : Bytes} (h : 0x0A ∉ t) :
    lastLine (s ++ 0x0A :: t) = t := by
  have hfeed : lastLine (s ++ [0x0A]) = [] := by simp [lastLine]
  rw [List.append_cons, lastLine_append _ h, hfeed, List.nil_append]

theorem lastLine_of_not_mem {t : Bytes} (h : 0x0A ∉ t) : lastLine t = t :=
  lastLine_append [] h

namespace Position

/-- The position of what follows a text: lines are counted by line feeds, and columns by the runes
of the last line. -/
def behind (t : Bytes) : Position :=
  ⟨1 + t.count 0x0A, 1 + (runes (lastLine t)).length⟩

/-- The order of positions: by line, and in a line by column. -/
def Before (p q : Position) : Prop :=
  p.line < q.line ∨ (p.line = q.line ∧ p.column < q.column)

/-- An ASCII byte that starts no line stands before all that follows it. -/
theorem before_behind (s : Bytes) {b : UInt8} (hascii : b < 0x80) (hb : b ≠ 0x0A) (t : Bytes) :
    (behind s).Before (behind (s ++ b :: t)) := by
  have hcount : (s ++ b :: t).count 0x0A = s.count 0x0A + t.count 0x0A := by
    rw [List.count_append, List.count_cons_of_ne hb]
  by_cases ht : 0x0A ∈ t
  · -- a line feed further on raises the line
    have hpos := List.count_pos_iff.mpr ht
    left
    simp only [behind, hcount]
    omega
  · -- and otherwise the byte itself is one more rune of the same line
    have hmem : 0x0A ∉ b :: t := List.not_mem_cons_of_ne_of_not_mem hb.symm ht
    right
    simp only [behind, hcount, List.count_eq_zero.mpr ht, lastLine_append s hmem,
      runes_append _ (startsAscii_cons hascii t), runes_cons, List.length_append, List.length_cons]
    omega

end Position

/-! ## Cursors -/

namespace Cursor

theorem scan_append (c : Cursor) (s : Bytes) {t : Bytes} (ht : StartsAscii t) :
    c.scan (s ++ t) = (c.scan s).scan t := by
  induction s generalizing c with
  | nil => rfl
  | cons b s ih => rw [List.cons_append, scan, read_append c b s ht, ih, scan]

/-- A text without a line feed adds its runes to the column. -/
theorem scan_line {c : Cursor} {t : Bytes} (howed : c.owed ≤ t.length) (h : 0x0A ∉ t) :
    c.scan t = ⟨c.line, c.column + (runesFrom c.owed t).length, 0⟩ := by
  induction t generalizing c with
  | nil =>
      obtain ⟨line, column, owed⟩ := c
      cases Nat.eq_zero_of_le_zero howed
      rfl
  | cons b t ih =>
      obtain ⟨line, column, owed⟩ := c
      have hb : b ≠ 0x0A := (List.ne_of_not_mem_cons h).symm
      have ht : 0x0A ∉ t := List.not_mem_of_not_mem_cons h
      cases owed with
      | succ owed => exact ih (Nat.le_of_succ_le_succ howed) ht
      | zero =>
          have hread : (read ⟨line, column, 0⟩ b t).1 = ⟨line, column + 1, Rune.width b t - 1⟩ := by
            simp only [read, if_neg hb]
          rw [scan, hread, ih (Rune.width_le b t) ht, runesFrom, List.length_cons]
          simp only [Cursor.mk.injEq, true_and, and_true]
          omega

/-- The cursor after a text: its line feeds, and the runes of its last line. -/
theorem scan_start (s : Bytes) :
    start.scan s = ⟨1 + s.count 0x0A, (runes (lastLine s)).length, 0⟩ := by
  induction hn : s.length using Nat.strongRecOn generalizing s with
  | ind n ih =>
      obtain hnone | ⟨front, b, line, rfl, rfl, hline⟩ := exists_last (· = 0x0A) s
      · have hmem : 0x0A ∉ s := fun h => hnone _ h rfl
        rw [scan_line (Nat.zero_le _) hmem, lastLine_of_not_mem hmem, List.count_eq_zero.mpr hmem]
        simp [start, runes]
      · have hmem : 0x0A ∉ line := fun h => hline _ h rfl
        have hstarts := startsAscii_cons (b := 0x0A) (by decide) line
        have hfront := ih front.length (by simp at hn; omega) front rfl
        have hread : ((start.scan front).read 0x0A line).1 = ⟨1 + front.count 0x0A + 1, 0, 0⟩ := by
          rw [hfront]
          rfl
        rw [scan_append _ _ hstarts, scan, hread, scan_line (Nat.zero_le _) hmem,
          lastLine_lineFeed _ hmem, List.count_append, List.count_cons_self,
          List.count_eq_zero.mpr hmem]
        simp only [runes, Nat.zero_add, Nat.add_assoc]

theorem ahead_scan_start (s : Bytes) : (start.scan s).ahead = Position.behind s := by
  rw [scan_start, ahead, Position.behind]
  simp only [Position.mk.injEq]
  omega

end Cursor

/-! ## Commands -/

namespace Command

/-- A command is an ASCII byte and no line feed. -/
theorem ascii_symbol (c : Command) : c.symbol < 0x80 ∧ c.symbol ≠ 0x0A := by
  cases c <;> decide

end Command

/-- The bytes of a source that are commands, by their offsets. -/
def commandOffsets (source : Bytes) : List (Nat × Command) :=
  source.zipIdx.filterMap fun x => (Command.ofByte? x.1).map (x.2, ·)

theorem mem_commandOffsets {source : Bytes} {k : Nat} {c : Command} :
    (k, c) ∈ commandOffsets source ↔ source[k]? = some c.symbol := by
  simp only [commandOffsets, List.mem_filterMap, Prod.exists, List.mem_zipIdx_iff_getElem?,
    Option.map_eq_some_iff, Prod.mk.injEq]
  constructor
  · rintro ⟨b, k, hk, c, hb, rfl, rfl⟩
    rw [hk, Command.symbol_of_ofByte? hb]
  · intro hk
    exact ⟨c.symbol, k, hk, c, Command.ofByte?_symbol c, rfl, rfl⟩

theorem pairwise_commandOffsets (source : Bytes) :
    (commandOffsets source).Pairwise (·.1 < ·.1) := by
  have hindices : source.zipIdx.Pairwise (·.2 < ·.2) := by
    rw [← List.pairwise_map (f := Prod.snd) (R := (· < ·)), List.zipIdx_map_snd]
    exact List.pairwise_lt_range'
  refine hindices.filterMap _ ?_
  intro x y hlt a ha b hb
  obtain ⟨_, _, rfl⟩ := Option.map_eq_some_iff.mp ha
  obtain ⟨_, _, rfl⟩ := Option.map_eq_some_iff.mp hb
  exact hlt

/-- A text without commands adds no command. -/
theorem commandOffsets_append (s : Bytes) {b : UInt8} {c : Command} {t : Bytes}
    (hb : Command.ofByte? b = some c) (ht : ∀ x ∈ t, Command.ofByte? x = none) :
    commandOffsets (s ++ b :: t) = commandOffsets s ++ [(s.length, c)] := by
  have hnil (k : Nat) : (t.zipIdx k).filterMap
      (fun x => (Command.ofByte? x.1).map (x.2, ·)) = [] := by
    refine List.filterMap_eq_nil_iff.mpr ?_
    intro x hx
    rw [ht x.1 (List.fst_mem_of_mem_zipIdx hx), Option.map_none]
  simp [commandOffsets, List.zipIdx_append, List.zipIdx_cons, hb, hnil]

theorem commandsFrom_of_none {c : Cursor} {t : Bytes} (ht : ∀ b ∈ t, Command.ofByte? b = none) :
    commandsFrom c t = [] := by
  induction t generalizing c with
  | nil => rfl
  | cons b t ih =>
      obtain ⟨hb, ht⟩ := List.forall_mem_cons.mp ht
      have hread : (c.read b t).2 = none := by
        unfold Cursor.read
        split
        · rfl
        · split
          · rfl
          · exact hb
      rw [commandsFrom]
      generalize c.read b t = step at hread
      obtain ⟨c', command⟩ := step
      cases hread
      exact ih ht

/-- Before a command a cursor owes nothing, so that the command is read as one. -/
theorem commandsFrom_symbol (s : Bytes) (c : Command) (t : Bytes) :
    ∃ cursor, commandsFrom (Cursor.start.scan s) (c.symbol :: t) =
      (c, Position.behind s) :: commandsFrom cursor t := by
  have hread : (Cursor.start.scan s).read c.symbol t =
      (⟨1 + s.count 0x0A, (runes (lastLine s)).length + 1, Rune.width c.symbol t - 1⟩, some c) := by
    rw [Cursor.scan_start, Cursor.read]
    simp only [if_neg c.ascii_symbol.2, Command.ofByte?_symbol]
  refine ⟨((Cursor.start.scan s).read c.symbol t).1, ?_⟩
  rw [commandsFrom, hread, ← Cursor.ahead_scan_start, Cursor.scan_start]
  rfl

/-- The commands of a source, each with its position. -/
theorem commands_eq (source : Bytes) :
    commands source =
      (commandOffsets source).map fun x => (x.2, Position.behind (source.take x.1)) := by
  induction hn : source.length using Nat.strongRecOn generalizing source with
  | ind n ih =>
      obtain hnone | ⟨s, b, t, rfl, hb, ht⟩ :=
        exists_last (fun b => Command.ofByte? b ≠ none) source
      · have hnone : ∀ b ∈ source, Command.ofByte? b = none :=
          fun b hb => Decidable.not_not.mp (hnone b hb)
        have hoffsets : commandOffsets source = [] := by
          refine List.eq_nil_iff_forall_not_mem.mpr ?_
          rintro ⟨k, c⟩ hmem
          have hc := hnone _ (List.mem_of_getElem? (mem_commandOffsets.mp hmem))
          rw [Command.ofByte?_symbol] at hc
          cases hc
        rw [commands, commandsFrom_of_none hnone, hoffsets, List.map_nil]
      · obtain ⟨c, hc⟩ := Option.ne_none_iff_exists'.mp hb
        have ht : ∀ x ∈ t, Command.ofByte? x = none := fun x hx => Decidable.not_not.mp (ht x hx)
        have hascii : b < 0x80 := Command.symbol_of_ofByte? hc ▸ c.ascii_symbol.1
        obtain ⟨cursor, hsymbol⟩ := commandsFrom_symbol s c t
        have hlast : commandsFrom (Cursor.start.scan s) (b :: t) = [(c, Position.behind s)] := by
          rw [← Command.symbol_of_ofByte? hc, hsymbol, commandsFrom_of_none ht]
        have hfront : (commandOffsets s).map
              (fun x => (x.2, Position.behind ((s ++ b :: t).take x.1))) =
            (commandOffsets s).map fun x => (x.2, Position.behind (s.take x.1)) := by
          refine List.map_congr_left ?_
          rintro ⟨k, c⟩ hmem
          have hlt := (List.getElem?_eq_some_iff.mp (mem_commandOffsets.mp hmem)).1
          rw [List.take_append_of_le_length (Nat.le_of_lt hlt)]
        rw [commands_append s (startsAscii_cons hascii t),
          ih s.length (by simp at hn; omega) s rfl, hlast, commandOffsets_append s hc ht,
          List.map_append, hfront]
        simp

/-- Without their positions, the commands of a source are the bytes that are commands. -/
theorem map_fst_commands (source : Bytes) :
    (commands source).map Prod.fst = source.filterMap Command.ofByte? := by
  have hview : (fun x : UInt8 × Nat => ((Command.ofByte? x.1).map (x.2, ·)).map Prod.snd) =
      fun x => Command.ofByte? x.1 := by
    funext x
    rw [Option.map_map]
    exact Option.map_id'
  calc (commands source).map Prod.fst
      = (commandOffsets source).map Prod.snd := by
        rw [commands_eq, List.map_map]
        rfl
    _ = source.zipIdx.filterMap fun x => Command.ofByte? x.1 := by
        rw [commandOffsets, List.map_filterMap, hview]
    _ = (source.zipIdx.map Prod.fst).filterMap Command.ofByte? := by
        rw [List.filterMap_map]
        rfl
    _ = source.filterMap Command.ofByte? := by
        rw [List.zipIdx_map_fst]

/-- Two texts have the commands of both, also if they meet within a character. -/
theorem map_fst_commands_append (s₁ s₂ : Bytes) :
    (commands (s₁ ++ s₂)).map Prod.fst =
      (commands s₁).map Prod.fst ++ (commands s₂).map Prod.fst := by
  simp only [map_fst_commands, List.filterMap_append]

/-- The commands of a source that is cut at one of them. -/
theorem commands_symbol (before : Bytes) (c : Command) (after : Bytes) :
    ∃ back, commands (before ++ c.symbol :: after) =
        commands before ++ (c, Position.behind before) :: back ∧
      back.map Prod.fst = (commands after).map Prod.fst := by
  obtain ⟨cursor, hsymbol⟩ := commandsFrom_symbol before c after
  have hcommands := commands_append before (startsAscii_cons c.ascii_symbol.1 after)
  rw [hsymbol] at hcommands
  refine ⟨_, hcommands, ?_⟩
  have hone : (commands [c.symbol]).map Prod.fst = [c] := by cases c <;> rfl
  have hall := congrArg (List.map Prod.fst) hcommands
  rw [List.append_cons, map_fst_commands_append, map_fst_commands_append, hone,
    List.append_assoc, List.map_append] at hall
  exact (List.cons.inj (List.append_cancel_left hall)).2.symm

/-- The commands before a command are those of the bytes before it, and they say where it is. -/
theorem exists_cut_of_commands {s : Bytes} {c : Command} {p : Position}
    {front back : List (Command × Position)} (h : commands s = front ++ (c, p) :: back) :
    ∃ before after, s = before ++ c.symbol :: after ∧ p = Position.behind before ∧
      front = commands before ∧ back.map Prod.fst = (commands after).map Prod.fst := by
  have hops : s.filterMap Command.ofByte? = front.map Prod.fst ++ c :: back.map Prod.fst := by
    rw [← map_fst_commands, h, List.map_append, List.map_cons]
  obtain ⟨start, rest, rfl, hstart, hrest⟩ := List.filterMap_eq_append_iff.mp hops
  obtain ⟨gap, b, after, rfl, hgap, hb, -⟩ := List.filterMap_eq_cons_iff.mp hrest
  obtain rfl := Command.symbol_of_ofByte? hb
  rw [← List.append_assoc] at h ⊢
  obtain ⟨back', hcommands, hback⟩ := commands_symbol (start ++ gap) c after
  -- there are as many commands before the one as there are before the cut
  have hfront : front.map Prod.fst = (commands (start ++ gap)).map Prod.fst := by
    rw [map_fst_commands, List.filterMap_append, hstart, List.filterMap_eq_nil_iff.mpr hgap,
      List.append_nil]
  have hlength : front.length = (commands (start ++ gap)).length := by
    rw [← List.length_map Prod.fst, hfront, List.length_map]
  obtain ⟨rfl, hsame⟩ := List.append_inj (h.symm.trans hcommands) hlength
  obtain ⟨hhead, rfl⟩ := List.cons.inj hsame
  exact ⟨start ++ gap, after, rfl, (Prod.mk.inj hhead).2, rfl, hback⟩

/-- A source has a command as often as its byte. -/
theorem count_commands (s : Bytes) (c : Command) :
    ((commands s).map Prod.fst).count c = s.count c.symbol := by
  have hbyte : (fun b => Command.ofByte? b == some c) = (· == c.symbol) := by
    funext b
    rw [Bool.eq_iff_iff, beq_iff_eq, beq_iff_eq]
    exact ⟨fun h => (Command.symbol_of_ofByte? h).symm, fun h => h ▸ Command.ofByte?_symbol c⟩
  rw [map_fst_commands, List.count_filterMap, hbyte]
  rfl

/-- A command stands before all that has a larger offset, and before the end. -/
theorem before_take {source : Bytes} {k n : Nat} {c : Command} (h : source[k]? = some c.symbol)
    (hlt : k < n) :
    (Position.behind (source.take k)).Before (Position.behind (source.take n)) := by
  have hget : (source.take n)[k]? = some c.symbol := by rw [List.getElem?_take_of_lt hlt, h]
  obtain ⟨hk, hsymbol⟩ := List.getElem?_eq_some_iff.mp hget
  have hcut : source.take n =
      source.take k ++ c.symbol :: (source.take n).drop (k + 1) := by
    rw [← hsymbol, ← List.drop_eq_getElem_cons hk]
    have htake : source.take k = (source.take n).take k := by
      rw [List.take_take, Nat.min_eq_left (Nat.le_of_lt hlt)]
    rw [htake, List.take_append_drop]
  rw [hcut]
  exact Position.before_behind _ c.ascii_symbol.1 c.ascii_symbol.2 _

/-! ## Calls of a scanner -/

namespace Scanner

/-- What call number `n` of a scanner finds, counted from zero. -/
def itemAt (s : Scanner) : Nat → Item
  | 0 => s.next.1
  | n + 1 => s.next.2.itemAt n

/-- Without a command to come, a scanner reads to the end. -/
theorem advance_of_nil {cursor : Cursor} {bytes : Bytes} (h : commandsFrom cursor bytes = []) :
    advance none cursor bytes =
      (.finish (cursor.scan bytes).ahead, ⟨cursor.scan bytes, { bytes := [] }⟩) := by
  induction bytes generalizing cursor with
  | nil => rfl
  | cons b rest ih =>
      rw [commandsFrom] at h
      rw [advance, Cursor.scan]
      generalize cursor.read b rest = step at h
      obtain ⟨cursor', _ | c⟩ := step
      · exact ih h
      · cases h

/-- With a command to come, a scanner finds that one and goes on behind it. -/
theorem advance_of_cons {cursor : Cursor} {bytes : Bytes} {x : Command × Position}
    {later : List (Command × Position)} (h : commandsFrom cursor bytes = x :: later) :
    ∃ cursor' rest, advance none cursor bytes =
        (.command x.1 x.2, ⟨cursor', { bytes := rest }⟩) ∧
      commandsFrom cursor' rest = later ∧ cursor'.scan rest = cursor.scan bytes := by
  induction bytes generalizing cursor with
  | nil => cases h
  | cons b rest ih =>
      rw [commandsFrom] at h
      rw [advance, Cursor.scan]
      generalize cursor.read b rest = step at h
      obtain ⟨cursor', _ | c⟩ := step
      · exact ih h
      · cases h
        exact ⟨cursor', rest, rfl, rfl, rfl⟩

/-- The calls of a scanner find the commands, one by one, and from then on the end. -/
theorem itemAt_eq (cursor : Cursor) (bytes : Bytes) (n : Nat) :
    itemAt ⟨cursor, { bytes }⟩ n =
      (commandsFrom cursor bytes)[n]?.elim (.finish (cursor.scan bytes).ahead)
        fun x => .command x.1 x.2 := by
  induction n generalizing cursor bytes with
  | zero =>
      rw [itemAt, next]
      cases h : commandsFrom cursor bytes with
      | nil => exact congrArg Prod.fst (advance_of_nil h)
      | cons x later =>
          obtain ⟨_, _, hadvance, -, -⟩ := advance_of_cons h
          exact congrArg Prod.fst hadvance
  | succ n ih =>
      rw [itemAt, next]
      cases h : commandsFrom cursor bytes with
      | nil => rw [advance_of_nil h, ih]; rfl
      | cons x later =>
          obtain ⟨cursor', rest, hadvance, hlater, hscan⟩ := advance_of_cons h
          rw [hadvance, ih, hlater, hscan, List.getElem?_cons_succ]

end Scanner

/-- A scanner finds one item for each byte of a source that is a command, in the order of the bytes,
and after these the end, again and again. The line of a command is counted by the line feeds before
it, and its column by the runes between the last of these and the command, where a rune is the
encoding of a character or a byte that starts none. So every item stands before the next one. -/
theorem scanner_follows_bytes (source : Bytes) :
    ∃ found : List (Nat × Command),
      found.Pairwise (·.1 < ·.1) ∧
      (∀ k c, (k, c) ∈ found ↔ source[k]? = some c.symbol) ∧
      (∀ n, (Scanner.ofFeed { bytes := source }).itemAt n =
        found[n]?.elim (.finish (Position.behind source))
          fun x => .command x.2 (Position.behind (source.take x.1))) ∧
      (found.map (fun x => Position.behind (source.take x.1)) ++
        [Position.behind source]).Pairwise Position.Before ∧
      ∀ (line : Bytes) (pieces : List Bytes),
        Decoded line pieces ↔ pieces = (runes line).map (·.bytes) := by
  refine ⟨commandOffsets source, pairwise_commandOffsets source, fun k c => mem_commandOffsets,
    ?items, ?order, fun line pieces => decoded_iff⟩
  case items =>
    intro n
    have hitem := Scanner.itemAt_eq Cursor.start source n
    rw [Cursor.ahead_scan_start, ← commands, commands_eq, List.getElem?_map] at hitem
    rw [Scanner.ofFeed, hitem]
    cases (commandOffsets source)[n]? <;> rfl
  case order =>
    refine List.pairwise_append.mpr ⟨?_, List.pairwise_singleton _ _, ?_⟩
    · refine List.pairwise_map.mpr ((pairwise_commandOffsets source).imp_of_mem ?_)
      intro x y hx _ hlt
      exact before_take (mem_commandOffsets.mp hx) hlt
    · intro p hp q hq
      obtain ⟨x, hx, rfl⟩ := List.mem_map.mp hp
      cases List.mem_singleton.mp hq
      have hget := mem_commandOffsets.mp hx
      have hlast := before_take hget (List.getElem?_eq_some_iff.mp hget).1
      rwa [List.take_length] at hlast

end Brainfuck
