import Brainfuck.Proofs.Streams

/-!
# Capacities of memory writers

How many bytes a memory writer can hold matters to a program only when it writes one byte too many.
Up to there a run does the same with every capacity, and what it has written by then is the
beginning of all that it writes with room enough.

## Main Definitions

* `MemoryStreams.resized` — the same streams with another capacity
* `Resized`, `Overrun` — a smaller and a larger writer, before and after the smaller one has failed

## Main Results

* `follows_resized` — a larger writer gives the answers of a smaller one, until that one is full
* `execute_larger`, `execute_smaller` — programs with a larger and with a smaller writer
* `capacity_only_truncates` — what any other capacity changes
-/

namespace Brainfuck

/-- The same streams with another capacity of the writer. -/
def MemoryStreams.resized (w : MemoryStreams) (capacity : Nat) : MemoryStreams :=
  { w with writer := { w.writer with capacity } }

/-- The same streams with a smaller and a larger writer, at a point of a run at which both have had
room. -/
structure Resized (smaller larger : Nat) (w w' : MemoryStreams) : Prop where
  eq_resized : w' = w.resized larger
  capacity_eq : w.writer.capacity = smaller
  size_le : w.writer.content.size ≤ smaller

/-- The smaller writer has no room for a byte. What it holds is the beginning of what the larger one
has got since. -/
structure Overrun (smaller : Nat) (d : Direction) (e : StreamError) (w w' : MemoryStreams) :
    Prop where
  direction_eq : d = .output
  error_eq : e = .bufferFull
  size_lt : smaller < w'.writer.content.size
  toList_eq : w.writer.content.toList = w'.writer.content.toList.take smaller

variable {smaller larger : Nat} {w w' : MemoryStreams}

theorem Resized.get (h : Resized smaller larger w w') :
    SameAnswer (Resized smaller larger) (Overrun smaller .input) (MemoryStreams.channel.get w)
      (MemoryStreams.channel.get w') := by
  obtain ⟨rfl, hcapacity, hsize⟩ := h
  exact .same ⟨rfl, hcapacity, hsize⟩

theorem Resized.put (hle : smaller ≤ larger) (h : Resized smaller larger w w') (b : UInt8) :
    SameAnswer (Resized smaller larger) (Overrun smaller .output) (MemoryStreams.channel.put b w)
      (MemoryStreams.channel.put b w') := by
  obtain ⟨rfl, rfl, hsize⟩ := h
  obtain ⟨reader, capacity, content⟩ := w
  simp only [MemoryStreams.channel, MemoryStreams.resized, MemoryWriter.put] at hle hsize ⊢
  by_cases hroom : content.size < capacity
  · rw [if_pos hroom, if_pos (Nat.lt_of_lt_of_le hroom hle)]
    refine .same ⟨rfl, rfl, ?_⟩
    show (content.push b).size ≤ capacity
    rw [Array.size_push]
    exact hroom
  rw [if_neg hroom]
  by_cases hlarger : content.size < larger
  · rw [if_pos hlarger]
    obtain rfl : content.size = capacity := by omega
    refine .excused ⟨rfl, rfl, ?_, ?_⟩
    · show content.size < (content.push b).size
      rw [Array.size_push]
      exact Nat.lt_succ_self _
    · show content.toList = (content.push b).toList.take content.size
      rw [Array.toList_push, ← Array.length_toList, List.take_left]
  · rw [if_neg hlarger]
    exact .same ⟨rfl, rfl, hsize⟩

/-- The larger writer takes nothing back. -/
theorem Overrun.put {d : Direction} {e : StreamError} (h : Overrun smaller d e w w') (b : UInt8) :
    Overrun smaller d e w (MemoryStreams.channel.put b w').2 := by
  obtain ⟨reader, capacity, content⟩ := w'
  obtain ⟨hd, he, hlt, htoList⟩ := h
  simp only [MemoryStreams.channel, MemoryWriter.put] at hlt htoList ⊢
  split
  · refine ⟨hd, he, ?_, ?_⟩
    · show smaller < (content.push b).size
      rw [Array.size_push]
      omega
    · show w.writer.content.toList = (content.push b).toList.take smaller
      rw [htoList, Array.toList_push, List.take_append_of_le_length (Nat.le_of_lt hlt)]
  · exact ⟨hd, he, hlt, htoList⟩

/-- A larger writer gives the answers of a smaller one, until that one is full. -/
theorem follows_resized (hle : smaller ≤ larger) :
    MemoryStreams.channel.Follows MemoryStreams.channel (Resized smaller larger)
      (Overrun smaller) where
  get := Resized.get
  put := fun b h => h.put hle b
  lasts := fun _ _ _ =>
    { get := fun h => ⟨h.direction_eq, h.error_eq, h.size_lt, h.toList_eq⟩
      put := fun b h => h.put b
      get_error := fun _ _ => trivial
      put_error := fun _ _ _ => trivial }

/-! ## Programs -/

section Programs

variable {code : Code} {fuel : Nat} {tape : Tape} {reader : MemoryReader}
  {r : Except RunError Unit} {m : Machine MemoryStreams}

theorem execute_agree_resized (hle : smaller ≤ larger) (code : Code) (fuel : Nat) (tape : Tape)
    (reader : MemoryReader) :
    Machine.Agree (Resized smaller larger) (Overrun smaller)
      (execute MemoryStreams.channel code fuel tape { reader, writer := { capacity := smaller } })
      (execute MemoryStreams.channel code fuel tape { reader, writer := { capacity := larger } }) :=
  execute_agree (follows_resized hle) ⟨rfl, rfl, Nat.zero_le _⟩ code fuel tape

/-- A program that has had room enough does the same with a larger writer. -/
theorem execute_larger (hle : smaller ≤ larger)
    (hrun : execute MemoryStreams.channel code fuel tape
      { reader, writer := { capacity := smaller } } = some (r, m))
    (hroom : ∀ index, r ≠ .error (.output index .bufferFull)) :
    m.world.writer.content.size ≤ smaller ∧
      execute MemoryStreams.channel code fuel tape { reader, writer := { capacity := larger } } =
        some (r, { m with world := m.world.resized larger }) := by
  have hagree := execute_agree_resized hle code fuel tape reader
  rw [hrun] at hagree
  generalize execute MemoryStreams.channel code fuel tape
    { reader, writer := { capacity := larger } } = b at hagree
  cases hagree with
  | same hresized =>
      obtain ⟨rfl, -, hsize⟩ := hresized
      exact ⟨hsize, rfl⟩
  | excused hcause hoverrun _ =>
      obtain ⟨rfl, rfl, -, -⟩ := hoverrun
      obtain ⟨index, rfl⟩ := RunError.eq_failure_of_cause? hcause
      exact absurd rfl (hroom index)

/-- With a smaller writer a program does the same, or it fails for want of room, with the beginning
of its output. -/
theorem execute_smaller (hle : smaller ≤ larger)
    (hrun : execute MemoryStreams.channel code fuel tape
      { reader, writer := { capacity := larger } } = some (r, m)) :
    (m.world.writer.content.size ≤ smaller ∧
      execute MemoryStreams.channel code fuel tape { reader, writer := { capacity := smaller } } =
        some (r, { m with world := m.world.resized smaller })) ∨
    (smaller < m.world.writer.content.size ∧ ∃ index x m',
      execute MemoryStreams.channel code fuel tape { reader, writer := { capacity := smaller } } =
          some (.error (.output index .bufferFull), m') ∧
        code[index]? = some x ∧ x.op = some .output ∧
        m'.world.writer.content.toList = m.world.writer.content.toList.take smaller) := by
  have hagree := execute_agree_resized hle code fuel tape reader
  rw [hrun] at hagree
  generalize hsmaller : execute MemoryStreams.channel code fuel tape
    { reader, writer := { capacity := smaller } } = a at hagree
  cases hagree with
  | @same r m₁ w' hresized =>
      obtain ⟨rfl, rfl, hsize⟩ := hresized
      exact .inl ⟨hsize, rfl⟩
  | @excused e d cause m₁ w' b hcause hoverrun hlasts =>
      obtain ⟨rfl, rfl, hlt, htoList⟩ := hlasts r m rfl
      obtain ⟨index, rfl⟩ := RunError.eq_failure_of_cause? hcause
      obtain ⟨x, hx, hop⟩ := op_of_execute_output hsmaller
      exact .inr ⟨hlt, index, x, m₁, rfl, hx, hop, htoList⟩

/-- The capacity of a writer only truncates. Let a program end with some output, and not for want of
room. A writer with room for that output changes nothing, neither the result nor the tape nor the
input that is read. A writer with less room ends the run at an instruction that writes, and it holds
as much of the output as it has room for. -/
theorem capacity_only_truncates {capacity : Nat}
    (hrun : execute MemoryStreams.channel code fuel tape
      { reader, writer := { capacity } } = some (r, m))
    (hroom : ∀ index, r ≠ .error (.output index .bufferFull)) (capacity' : Nat) :
    (m.world.writer.content.size ≤ capacity' →
      execute MemoryStreams.channel code fuel tape
          { reader, writer := { capacity := capacity' } } =
        some (r, { m with world := m.world.resized capacity' })) ∧
    (capacity' < m.world.writer.content.size → ∃ index x m',
      execute MemoryStreams.channel code fuel tape
          { reader, writer := { capacity := capacity' } } =
        some (.error (.output index .bufferFull), m') ∧
      code[index]? = some x ∧ x.op = some .output ∧
      m'.world.writer.content.toList = m.world.writer.content.toList.take capacity') := by
  obtain hle | hle := Nat.le_total capacity capacity'
  · obtain ⟨hsize, hlarger⟩ := execute_larger hle hrun hroom
    refine ⟨fun _ => hlarger, ?_⟩
    intro hlt
    omega
  obtain ⟨hsize, hsmaller⟩ | ⟨hlt, hsmaller⟩ := execute_smaller hle hrun
  · refine ⟨fun _ => hsmaller, ?_⟩
    intro hlt
    omega
  · refine ⟨?_, fun _ => hsmaller⟩
    intro hsize
    omega

end Programs

/-- A countdown from three, with a loop around its one instruction that writes. Its output fits into
three bytes exactly, and with two bytes the run ends in the third round. -/
theorem capacity_only_truncates_of_countdown :
    let code : Code := #[{ op := some .loopStart, target := 4 }, { op := some .output },
      { op := some .decrement }, { op := some .loopEnd }]
    ∃ m, execute MemoryStreams.channel code 13 #[3]
          { reader := .ofBytes [], writer := { capacity := 5 } } = some (.ok (), m) ∧
      (∀ index, (.ok () : Except RunError Unit) ≠ .error (.output index .bufferFull)) ∧
      m.world.writer.content = #[3, 2, 1] ∧
      execute MemoryStreams.channel code 13 #[3]
          { reader := .ofBytes [], writer := { capacity := 3 } } =
        some (.ok (), { m with world := m.world.resized 3 }) ∧
      ∃ index x m', execute MemoryStreams.channel code 13 #[3]
            { reader := .ofBytes [], writer := { capacity := 2 } } =
          some (.error (.output index .bufferFull), m') ∧
        code[index]? = some x ∧ x.op = some .output ∧
        m'.world.writer.content.toList = [3, 2] := by
  intro code
  have hfirst : ∃ m, execute MemoryStreams.channel code 13 #[3]
        { reader := .ofBytes [], writer := { capacity := 5 } } = some (.ok (), m) ∧
      m.world.writer.content = #[3, 2, 1] := ⟨_, rfl, rfl⟩
  obtain ⟨m, hrun, hcontent⟩ := hfirst
  have hroom : ∀ index, (.ok () : Except RunError Unit) ≠ .error (.output index .bufferFull) := by
    intro index h
    cases h
  obtain ⟨henough, -⟩ := capacity_only_truncates hrun hroom 3
  obtain ⟨-, hshort⟩ := capacity_only_truncates hrun hroom 2
  rw [hcontent] at henough hshort
  exact ⟨m, hrun, hroom, hcontent, henough (by decide), hshort (by decide)⟩

end Brainfuck
