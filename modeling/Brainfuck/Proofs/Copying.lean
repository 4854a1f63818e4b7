import Brainfuck.Proofs.Correctness
import Brainfuck.Sample

/-!
# Copying the input

The sample `cat` writes what it reads. It knows of no end of the input: it stops at a zero byte, and
an input without one is copied as a whole before the run fails.

## Main Definitions

* `Copied` — what a run that copies its input leaves
* `Data.copying` — the data between two commands of such a run

## Main Results

* `executes_round`, `executes_last_round` — what a round of the loop does
* `exists_executes_loop` — from any round on, the loop copies the rest of the input
* `cat_copies_until_zero` — the same for the sample, its code and every run of it

## Design Notes

The loop is followed by induction on the bytes that are still to be read. Before a round the input
is `v ++ b :: rest`, where `v` has been written, `b` is in the cell and no byte of `v` is zero.
-/

namespace Brainfuck

variable {tape : Tape} {input v rest out : Bytes} {capacity n : Nat} {b c : UInt8}

/-- What a run that copies its input up to a zero byte leaves of `tape`. -/
structure Copied (input : Bytes) (tape : Tape) (r : Except RunError Unit)
    (t : Data MemoryStreams) : Prop where
  /-- The bytes before the first zero byte have been written. -/
  content_eq : t.world.writer.content.toList = input.takeWhile (· != 0)
  /-- Exactly with a zero byte the run succeeds. This byte is the last one read. -/
  ok_iff : (r = .ok () ∧ t.tape[0]? = some 0 ∧
    t.world.reader.position = (input.takeWhile (· != 0)).length + 1) ↔ 0 ∈ input
  /-- Otherwise the input ends at the first command or in the loop. -/
  error_of_not_mem : 0 ∉ input →
    r = .error (.input (if input = [] then 0 else 3) .endOfInput) ∧
      t.world.reader.position = input.length
  size_eq : t.tape.size = tape.size
  getElem?_eq : ∀ i, i ≠ 0 → t.tape[i]? = tape[i]?

/-- The data on `tape` when `n` bytes have been read, the last of them is `b` and `out` has been
written. -/
def Data.copying (tape : Tape) (input : Bytes) (capacity n : Nat) (b : UInt8) (out : Bytes) :
    Data MemoryStreams where
  tape := tape.setIfInBounds 0 (Int32.ofNat b.toNat)
  pointer := 0
  world :=
    { reader := { text := input.toArray, position := n },
      writer := { capacity, content := out.toArray } }

/-- The body of the loop. -/
def copyBody : Tree :=
  .act .output (.act .input .done)

theorem ofCommands_catSource :
    Tree.ofCommands ((commands catSource).map Prod.fst) = .act .input (.loop copyBody .done) := by
  decide

/-! ## Cells and bytes -/

/-- The cell that a byte is read into is written as this byte. -/
theorem ofInt_toInt_ofNat (b : UInt8) : UInt8.ofInt (Int32.ofNat b.toNat).toInt = b := by
  rw [← toInt32_toUInt32, ← toUInt8_toUInt32]
  show b.toUInt32.toUInt8 = b
  exact UInt8.toUInt8_toUInt32 b

theorem ofNat_toNat_ne_zero (hb : b ≠ 0) : Int32.ofNat b.toNat ≠ 0 := by
  intro h
  apply hb
  rw [← ofInt_toInt_ofNat b, h]
  rfl

theorem modify_const (tape : Tape) (i : Nat) (c : Int32) :
    (tape.modify i fun _ => c) = tape.setIfInBounds i c := by
  apply Array.ext (by simp)
  intro j _ _
  rw [Array.getElem_modify, Array.getElem_setIfInBounds]

/-- The bytes before the first zero byte, past some bytes that are not zero. -/
theorem takeWhile_append_of_zero_not_mem (hv : 0 ∉ v) (rest : Bytes) :
    (v ++ rest).takeWhile (· != 0) = v ++ rest.takeWhile (· != 0) := by
  apply List.takeWhile_append_of_pos
  intro b hb
  exact bne_iff_ne.mpr fun h => hv (h ▸ hb)

/-! ## Commands -/

namespace Data

theorem cell_copying (htape : tape ≠ #[]) :
    (copying tape input capacity n b out).cell = Int32.ofNat b.toNat := by
  have hsize : 0 < tape.size := Array.size_pos_iff.mpr htape
  simp [copying, cell, hsize]

theorem cell_copying_ne_zero (htape : tape ≠ #[]) (hb : b ≠ 0) :
    (copying tape input capacity n b out).cell ≠ 0 := by
  rw [cell_copying htape]
  exact ofNat_toNat_ne_zero hb

theorem effect_output_copying (htape : tape ≠ #[]) (hroom : out.length < capacity) :
    Primitive.output.effect MemoryStreams.channel (copying tape input capacity n b out) =
      (.ok (), copying tape input capacity n b (out ++ [b])) := by
  simp only [Primitive.effect, cell_copying htape, ofInt_toInt_ofNat]
  simp [copying, MemoryStreams.channel, MemoryWriter.put, hroom]

theorem effect_input_copying (hc : input[n]? = some c) :
    Primitive.input.effect MemoryStreams.channel (copying tape input capacity n b out) =
      (.ok (), copying tape input capacity (n + 1) c out) := by
  simp [Primitive.effect, copying, MemoryStreams.channel, MemoryReader.get, update, hc,
    modify_const]

theorem effect_input_copying_of_end (hn : input.length ≤ n) :
    Primitive.input.effect MemoryStreams.channel (copying tape input capacity n b out) =
      (.error (.input .endOfInput), copying tape input capacity n b out) := by
  simp [Primitive.effect, copying, MemoryStreams.channel, MemoryReader.get, hn]

/-- The first byte of the input replaces the first cell of the tape. -/
theorem effect_input_holding (tape : Tape) (b : UInt8) (rest : Bytes) (capacity : Nat) :
    Primitive.input.effect MemoryStreams.channel
      ⟨tape, 0, MemoryStreams.holding (b :: rest) capacity⟩ =
      (.ok (), copying tape (b :: rest) capacity 1 b []) := by
  simp [Primitive.effect, copying, MemoryStreams.channel, MemoryReader.get, update,
    MemoryStreams.holding, MemoryReader.ofBytes, modify_const]

end Data

/-! ## Ends of a run -/

namespace Copied

/-- A run that ends with a zero byte in the first cell. -/
theorem of_zero (htape : tape ≠ #[]) (hinput : input = v ++ 0 :: rest) (hv : 0 ∉ v) :
    Copied input tape (.ok ()) (.copying tape input capacity (v.length + 1) 0 v) := by
  have hfront : input.takeWhile (· != 0) = v := by
    rw [hinput, takeWhile_append_of_zero_not_mem hv]
    simp
  have hmem : 0 ∈ input := by
    rw [hinput]
    exact List.mem_append_right v List.mem_cons_self
  have hsize : 0 < tape.size := Array.size_pos_iff.mpr htape
  constructor
  · exact hfront.symm
  · rw [hfront]
    refine iff_of_true ⟨rfl, ?_, rfl⟩ hmem
    simp [Data.copying, hsize]
  · exact fun h => absurd hmem h
  · exact Array.size_setIfInBounds
  · intro i hi
    exact Array.getElem?_setIfInBounds_ne hi.symm

/-- A run over an input without a zero byte that ends in the loop. -/
theorem of_end (hne : input ≠ []) (hinput : 0 ∉ input) :
    Copied input tape (.error (.input 3 .endOfInput))
      (.copying tape input capacity input.length b input) := by
  have hfront : input.takeWhile (· != 0) = input := by
    simpa using takeWhile_append_of_zero_not_mem hinput []
  constructor
  · exact hfront.symm
  · exact iff_of_false (fun h => nomatch h.1) hinput
  · intro _
    rw [if_neg hne]
    exact ⟨rfl, rfl⟩
  · exact Array.size_setIfInBounds
  · intro i hi
    exact Array.getElem?_setIfInBounds_ne hi.symm

/-- A run without input. -/
theorem of_nil :
    Copied [] tape (.error (.input 0 .endOfInput)) ⟨tape, 0, .holding [] capacity⟩ where
  content_eq := rfl
  ok_iff := iff_of_false (fun h => nomatch h.1) List.not_mem_nil
  error_of_not_mem _ := ⟨rfl, rfl⟩
  size_eq := rfl
  getElem?_eq _ _ := rfl

end Copied

/-! ## Rounds -/

/-- With a zero byte in the cell the loop is over. -/
theorem executes_skip (htape : tape ≠ #[]) :
    Executes MemoryStreams.channel 1 (.loop copyBody .done)
      (.copying tape input capacity n 0 out) (.ok ()) (.copying tape input capacity n 0 out) :=
  .skip (Data.cell_copying htape) .done

/-- A round writes the byte in the cell and reads the next one. -/
theorem executes_round (htape : tape ≠ #[]) (hroom : out.length < capacity)
    (hc : input[n]? = some c) :
    Executes MemoryStreams.channel 2 copyBody (.copying tape input capacity n b out) (.ok ())
      (.copying tape input capacity (n + 1) c (out ++ [b])) :=
  .act (Data.effect_output_copying htape hroom) (.act (Data.effect_input_copying hc) .done)

/-- The round that finds the end of the input writes the byte in the cell, too. -/
theorem executes_last_round (htape : tape ≠ #[]) (hroom : out.length < capacity)
    (hn : input.length ≤ n) :
    Executes MemoryStreams.channel 2 copyBody (.copying tape input capacity n b out)
      (.error (.input 3 .endOfInput)) (.copying tape input capacity n b (out ++ [b])) :=
  .act (Data.effect_output_copying htape hroom) (.fail (Data.effect_input_copying_of_end hn))

/-- A writer that holds the bytes before the first zero byte has room for each of them. -/
theorem length_lt_of_takeWhile_le (hroom : (input.takeWhile (· != 0)).length ≤ capacity)
    (hinput : input = v ++ b :: rest) (hv : 0 ∉ v) (hb : b ≠ 0) : v.length < capacity := by
  have hfront : (b :: rest).takeWhile (· != 0) = b :: rest.takeWhile (· != 0) :=
    List.takeWhile_cons_of_pos (bne_iff_ne.mpr hb)
  rw [hinput, takeWhile_append_of_zero_not_mem hv, hfront, List.length_append,
    List.length_cons] at hroom
  omega

/-- **From any round on the loop copies the rest of the input.** -/
theorem exists_executes_loop (htape : tape ≠ #[])
    (hroom : (input.takeWhile (· != 0)).length ≤ capacity) (hinput : input = v ++ b :: rest)
    (hv : 0 ∉ v) :
    ∃ r t, Executes MemoryStreams.channel 1 (.loop copyBody .done)
      (.copying tape input capacity (v.length + 1) b v) r t ∧ Copied input tape r t := by
  induction rest generalizing v b with
  | nil =>
      by_cases hb : b = 0
      · subst hb
        exact ⟨_, _, executes_skip htape, .of_zero htape hinput hv⟩
      · have hlt := length_lt_of_takeWhile_le hroom hinput hv hb
        have hlength : input.length = v.length + 1 := by simp [hinput]
        have hmem : 0 ∉ v ++ [b] := by simpa [hv] using Ne.symm hb
        have hround := executes_last_round (b := b) htape hlt (Nat.le_of_eq hlength)
        refine ⟨_, _, .stop (Data.cell_copying_ne_zero htape hb) hround, ?_⟩
        rw [← hinput] at hmem ⊢
        rw [← hlength]
        exact .of_end (by simp [hinput]) hmem
  | cons c rest ih =>
      by_cases hb : b = 0
      · subst hb
        exact ⟨_, _, executes_skip htape, .of_zero htape hinput hv⟩
      · have hlt := length_lt_of_takeWhile_le hroom hinput hv hb
        have hc : input[v.length + 1]? = some c := by simp [hinput]
        have hround := executes_round (b := b) htape hlt hc
        -- the byte that the round has written joins those that are not zero
        have hmem : 0 ∉ v ++ [b] := by simpa [hv] using Ne.symm hb
        have hsplit : input = (v ++ [b]) ++ c :: rest := by simp [hinput]
        obtain ⟨r, t, hloop, hcopied⟩ := ih hsplit hmem
        rw [List.length_append, List.length_singleton] at hloop
        exact ⟨r, t, .again (Data.cell_copying_ne_zero htape hb) hround hloop, hcopied⟩

/-- **The meaning of the sample**: it copies its input. -/
theorem exists_means_catSource (htape : tape ≠ #[])
    (hroom : (input.takeWhile (· != 0)).length ≤ capacity) :
    ∃ r t, Means MemoryStreams.channel catSource tape (.holding input capacity) r t ∧
      Copied input tape r t := by
  simp only [Means, ofCommands_catSource]
  cases input with
  | nil => exact ⟨_, _, .fail rfl, .of_nil⟩
  | cons b rest =>
      obtain ⟨r, t, hloop, hcopied⟩ :=
        exists_executes_loop htape hroom (List.nil_append (b :: rest)).symm List.not_mem_nil
      exact ⟨r, t, .act (Data.effect_input_holding tape b rest capacity) hloop, hcopied⟩

/-- **The sample `cat` copies its input up to the first zero byte.** It can be compiled. On every
tape that has a cell, and with a writer that can hold the bytes before the first zero byte, its code
comes to an end and has written exactly these bytes. It has succeeded if there is a zero byte, which
is then the last byte read and in the first cell. Otherwise the run has read the whole input and
failed at its end. No other cell is changed. -/
theorem cat_copies_until_zero :
    ∃ source, sample? (text "cat") = some source ∧
      (∀ strict disk, ∃ p,
        Program.compile { strict } { bytes := source } disk = (.ok p, disk)) ∧
      ∀ settings disk disk' p,
        Program.compile settings { bytes := source } disk = (.ok p, disk') →
        ∀ (tape : Tape) (input : Bytes) (capacity : Nat), tape ≠ #[] →
          (input.takeWhile (· != 0)).length ≤ capacity →
          (∃ fuel r m, execute MemoryStreams.channel p.code fuel tape
            (.holding input capacity) = some (r, m)) ∧
          ∀ fuel r m, execute MemoryStreams.channel p.code fuel tape
            (.holding input capacity) = some (r, m) → Copied input tape r m.data := by
  refine ⟨catSource, by decide, ?_, ?_⟩
  · intro strict disk
    cases strict <;> exact ⟨_, rfl⟩
  · intro settings disk disk' p hp tape input capacity htape hroom
    obtain ⟨r, t, hmeans, hcopied⟩ := exists_means_catSource htape hroom
    constructor
    · obtain ⟨fuel, i, hrun⟩ := (Program.means_iff_execute hp htape).mp hmeans
      exact ⟨fuel, r, t.machine i, hrun⟩
    · intro fuel r' m hrun
      have hmeans' :
          Means MemoryStreams.channel catSource tape (.holding input capacity) r' m.data :=
        (Program.means_iff_execute hp htape).mpr ⟨fuel, m.counter, hrun⟩
      obtain ⟨rfl, rfl⟩ := hmeans.unique hmeans'
      exact hcopied

/-- Two bytes are copied, a zero byte ends the run, and the byte behind it is not read. -/
theorem cat_copies_until_zero_inside :
    ∃ source p m, sample? (text "cat") = some source ∧
      Program.compile {} { bytes := source } {} = (.ok p, {}) ∧
      execute MemoryStreams.channel p.code 20 #[7, 8] (.holding [1, 2, 0, 3] 2) =
        some (.ok (), m) ∧
      m.world.writer.content = #[1, 2] ∧ m.world.reader.position = 3 ∧ m.tape = #[0, 8] ∧
      Copied [1, 2, 0, 3] #[7, 8] (.ok ()) m.data := by
  obtain ⟨source, hsource, -, hruns⟩ := cat_copies_until_zero
  have hcat : sample? (text "cat") = some catSource := by decide
  obtain rfl := Option.some.inj (hcat.symm.trans hsource)
  have hrun : ∃ p m, Program.compile {} { bytes := catSource } {} = (.ok p, {}) ∧
      execute MemoryStreams.channel p.code 20 #[7, 8] (.holding [1, 2, 0, 3] 2) =
        some (.ok (), m) ∧
      m.world.writer.content = #[1, 2] ∧ m.world.reader.position = 3 ∧ m.tape = #[0, 8] :=
    ⟨_, _, rfl, rfl, rfl, rfl, rfl⟩
  obtain ⟨p, m, hp, hm, hcontent, hposition, htape⟩ := hrun
  obtain ⟨-, hcopied⟩ := hruns _ _ _ p hp #[7, 8] [1, 2, 0, 3] 2 (by simp) (by decide)
  exact ⟨catSource, p, m, hsource, hp, hm, hcontent, hposition, htape, hcopied 20 _ m hm⟩

end Brainfuck
