import Brainfuck.Proofs.Jumps
import Brainfuck.Proofs.Turns
import Brainfuck.Stream.Memory

/-!
# Safety of runs

A run on a tape with cells keeps the data pointer on the tape. If no jump of its code leads below
zero, it reads and writes nothing but existing cells and instructions, and there are few ways in
which it can end.

## Main Definitions

* `NoStrayJumps` — code whose jumps do not lead below zero
* `Machine.OnTape` — the invariant on the data pointer
* `Machine.Fails`, `Machine.Outcome` — how an instruction fails, and all that it can do
* `Machine.Stops` — how an observed run ends at an instruction

## Main Results

* `Machine.outcome_step` — what one instruction can do
* `Machine.step_onTape`, `Machine.fails_of_step` — what one instruction keeps, and how it fails
* `Program.noStrayJumps_of_compile` — compiled code has no stray jumps
* `run_stays_in_bounds` — the same over whole runs, observed or not

## Design Notes

An instruction beyond the code ends a run, so a jump that leads too far is harmless. This is why
the condition on jumps has no upper bound.
-/

namespace Brainfuck

/-- No jump of the code leads to an index below zero. -/
def NoStrayJumps (code : Code) : Prop :=
  ∀ x ∈ code, x.isJump = true → 0 ≤ x.target

namespace Machine

variable {ω ε : Type}

/-- The tape has `size` cells, and the data pointer is on one of them. -/
structure OnTape (size : Nat) (m : Machine ω) : Prop where
  size_eq : m.tape.size = size
  pointer_lt : m.pointer < size

/-- How an instruction fails: the data pointer would leave the tape at one of its ends, or a stream
refuses a byte. -/
inductive Fails (channel : Channel ω) (x : Instruction) (m : Machine ω) :
    RunError → Machine ω → Prop where
  | above : x.op = some .moveForward → m.pointer + 1 = m.tape.size →
      Fails channel x m (.outOfRange m.tape.size m.tape.size m.counter) m
  | below : x.op = some .moveBackward → m.pointer = 0 →
      Fails channel x m (.outOfRange (-1) m.tape.size m.counter) m
  | output {e : StreamError} {world : ω} : x.op = some .output →
      channel.put m.cell.toUInt32.toUInt8 m.world = (.error e, world) →
      Fails channel x m (.output m.counter e) { m with world }
  | input {e : StreamError} {world : ω} : x.op = some .input →
      channel.get m.world = (.error e, world) →
      Fails channel x m (.input m.counter e) { m with world }

/-- What an instruction can do on a tape with `size` cells: it succeeds and keeps the data pointer
on the tape, it fails, or it is a jump below zero. -/
inductive Outcome (channel : Channel ω) (x : Instruction) (size : Nat) (m : Machine ω) :
    Except RunError Unit × Machine ω → Prop where
  | ok {m' : Machine ω} : m'.OnTape size → Outcome channel x size m (.ok (), m')
  | fails {e : RunError} {m' : Machine ω} : Fails channel x m e m' →
      Outcome channel x size m (.error e, m')
  | stray : x.isJump = true → x.target < 0 →
      Outcome channel x size m (.error (.strayJump x.target), m)

/-- How an observed run ends at an instruction: the observer ends it, or it lets the instruction
fail. -/
inductive Stops (channel : Channel ω) (observer : Observer ω ε) (x : Instruction) (m : Machine ω) :
    Ending ε → Machine ω → Prop where
  | halted {world : ω} : observer (m.snapshot x) m.world = (.halt, world) →
      Stops channel observer x m .halted { m with world }
  | interrupted {cause : ε} {world : ω} :
      observer (m.snapshot x) m.world = (.fail cause, world) →
      Stops channel observer x m (.interrupted cause) { m with world }
  | failed {e : RunError} {world : ω} {m' : Machine ω} :
      observer (m.snapshot x) m.world = (.proceed, world) →
      Fails channel x { m with world } e m' → Stops channel observer x m (.failed e) m'

variable {channel : Channel ω} {observer : Observer ω ε} {code : Code} {x : Instruction}
  {m m' : Machine ω} {size : Nat} {e : RunError}

/-! ## One instruction -/

theorem start_onTape {tape : Tape} (htape : tape ≠ #[]) (world : ω) :
    (start tape world).OnTape tape.size :=
  ⟨rfl, Array.size_pos_iff.mpr htape⟩

theorem OnTape.withWorld (hm : m.OnTape size) (world : ω) : { m with world }.OnTape size :=
  ⟨hm.size_eq, hm.pointer_lt⟩

/-- The current cell is a cell of the tape. -/
theorem OnTape.getElem?_pointer (hm : m.OnTape size) : m.tape[m.pointer]? = some m.cell := by
  have hlt : m.pointer < m.tape.size := by
    rw [hm.size_eq]
    exact hm.pointer_lt
  rw [cell, Array.getD_eq_getD_getElem?, Array.getElem?_eq_getElem hlt, Option.getD_some]

theorem OnTape.update (hm : m.OnTape size) (f : Int32 → Int32) : (m.update f).OnTape size :=
  ⟨by simpa [Machine.update] using hm.size_eq, hm.pointer_lt⟩

/-- A jump that succeeds changes nothing but the counter, and it fails only below zero. -/
theorem jump_cases (m : Machine ω) (target : Int) :
    (∃ counter : Nat, m.jump target = (.ok (), { m with counter })) ∨
      (target < 0 ∧ m.jump target = (.error (.strayJump target), m)) := by
  cases target with
  | ofNat counter => exact .inl ⟨counter, rfl⟩
  | negSucc n => exact .inr ⟨Int.negSucc_lt_zero n, rfl⟩

theorem output_eq (channel : Channel ω) (m : Machine ω) :
    m.output channel =
      match channel.put m.cell.toUInt32.toUInt8 m.world with
      | (.ok (), world) => (.ok (), { m with counter := m.counter + 1, world })
      | (.error e, world) => (.error (.output m.counter e), { m with world }) := rfl

theorem input_eq (channel : Channel ω) (m : Machine ω) :
    m.input channel =
      match channel.get m.world with
      | (.ok b, world) => (.ok (), { m with world }.update fun _ => b.toUInt32.toInt32)
      | (.error e, world) => (.error (.input m.counter e), { m with world }) := rfl

theorem outcome_jump (hm : m.OnTape size) (channel : Channel ω) (hx : x.isJump = true) :
    Outcome channel x size m (m.jump x.target) := by
  obtain ⟨counter, heq⟩ | ⟨hneg, heq⟩ := m.jump_cases x.target
  · rw [heq]
    exact .ok ⟨hm.size_eq, hm.pointer_lt⟩
  · rw [heq]
    exact .stray hx hneg

/-- What an instruction can do on the tape. -/
theorem outcome_step (hm : m.OnTape size) (channel : Channel ω) (x : Instruction) :
    Outcome channel x size m (m.step channel x) := by
  unfold step
  rcases hop : x.op with _ | c
  · exact .ok ⟨hm.size_eq, hm.pointer_lt⟩
  cases c with
  | moveForward =>
      have hlt := hm.pointer_lt
      rw [← hm.size_eq] at hlt
      dsimp only
      split
      · next hnext =>
          rw [hm.size_eq] at hnext
          exact .ok ⟨hm.size_eq, hnext⟩
      · -- the data pointer was on the tape, so it leaves it by one cell only
        have hsize : m.pointer + 1 = m.tape.size := by omega
        rw [show (m.pointer : Int) + 1 = m.tape.size by omega]
        exact .fails (.above hop hsize)
  | moveBackward =>
      dsimp only
      split
      · next pointer hpointer =>
          have hlt := hm.pointer_lt
          rw [hpointer] at hlt
          exact .ok ⟨hm.size_eq, Nat.lt_of_succ_lt hlt⟩
      · next hzero => exact .fails (.below hop hzero)
  | increment => exact .ok (hm.update _)
  | decrement => exact .ok (hm.update _)
  | output =>
      dsimp only
      rw [output_eq]
      split
      · exact .ok ⟨hm.size_eq, hm.pointer_lt⟩
      · next hput => exact .fails (.output hop hput)
  | input =>
      dsimp only
      rw [input_eq]
      split
      · exact .ok ((hm.withWorld _).update _)
      · next hget => exact .fails (.input hop hget)
  | loopStart =>
      dsimp only
      split
      · exact outcome_jump hm channel (by simp [Instruction.isJump, hop, Command.isJump])
      · exact .ok ⟨hm.size_eq, hm.pointer_lt⟩
  | loopEnd => exact outcome_jump hm channel (by simp [Instruction.isJump, hop, Command.isJump])

/-- An instruction keeps the data pointer on the tape and the number of cells. -/
theorem step_onTape (hm : m.OnTape size) (h : m.step channel x = (.ok (), m')) :
    m'.OnTape size := by
  have houtcome := outcome_step hm channel x
  rw [h] at houtcome
  cases houtcome with
  | ok hm' => exact hm'

/-- An instruction fails in one of four ways, unless it is a jump below zero. -/
theorem fails_of_step (hm : m.OnTape size) (hx : x.isJump = true → 0 ≤ x.target)
    (h : m.step channel x = (.error e, m')) : Fails channel x m e m' := by
  have houtcome := outcome_step hm channel x
  rw [h] at houtcome
  cases houtcome with
  | fails hfails => exact hfails
  | stray hop hneg => exact absurd (hx hop) (Int.not_le.mpr hneg)

theorem Fails.size_eq (h : Fails channel x m e m') : m'.tape.size = m.tape.size := by
  cases h <;> rfl

theorem Stops.size_eq {ending : Ending ε} (h : Stops channel observer x m ending m') :
    m'.tape.size = m.tape.size := by
  cases h with
  | halted _ => rfl
  | interrupted _ => rfl
  | failed _ hfails => exact hfails.size_eq

/-! ## Whole runs -/

theorem next_onTape (h : m.next channel code = .ok m') (hm : m.OnTape size) : m'.OnTape size := by
  obtain ⟨x, -, hstep⟩ := next_eq_ok h
  exact step_onTape hm hstep

theorem turn_onTape (h : m.turn channel observer code = .ok m') (hm : m.OnTape size) :
    m'.OnTape size := by
  obtain ⟨x, world, -, -, hstep⟩ := turn_eq_ok h
  exact step_onTape (hm.withWorld world) hstep

end Machine

/-- Compiled code has no stray jumps. -/
theorem Program.noStrayJumps_of_compile {settings : CompileSettings} {source : Feed}
    {disk disk' : Disk} {p : Program} (h : compile settings source disk = (.ok p, disk')) :
    NoStrayJumps p.code := by
  intro x hx _
  obtain ⟨i, hi⟩ := Array.mem_iff_getElem?.mp hx
  have hlt := (Array.getElem?_eq_some_iff.mp hi).1
  cases (laidOut_of_compile h).settled (Nat.zero_le i) hlt with
  | act hy _ htarget =>
      cases hi.symm.trans hy
      omega
  | guard hpartners =>
      obtain ⟨y, hy, -, htarget⟩ := hpartners.guard
      cases hi.symm.trans hy
      omega
  | exit hpartners =>
      obtain ⟨y, hy, -, htarget⟩ := hpartners.exit
      cases hi.symm.trans hy
      omega

section Programs

variable {ω ε : Type} {channel : Channel ω} {observer : Observer ω ε} {code : Code} {tape : Tape}
  {world : ω} {fuel k : Nat} {m m' : Machine ω} {x : Instruction}

/-- Every instruction of a plain run is executed on the tape. -/
theorem onTape_of_executedAt (h : executedAt channel code tape world k = some (m, x)) :
    m.OnTape tape.size := by
  have htape := ne_empty_of_instructionAt h
  obtain ⟨-, hafter, -⟩ := instructionAt_eq_some.mp h
  exact after_invariant (fun _ _ => Machine.next_onTape) (Machine.start_onTape htape world) hafter

/-- Every instruction of an observed run is shown on the tape. -/
theorem onTape_of_observedAt (h : observedAt channel observer code tape world k = some (m, x)) :
    m.OnTape tape.size := by
  have htape := ne_empty_of_instructionAt h
  obtain ⟨-, hafter, -⟩ := instructionAt_eq_some.mp h
  exact after_invariant (fun _ _ => Machine.turn_onTape) (Machine.start_onTape htape world) hafter

/-- A plain run ends behind the code or with a failing instruction. -/
theorem fails_of_execute (hcode : NoStrayJumps code) (htape : tape ≠ #[])
    {r : Except RunError Unit} (h : execute channel code fuel tape world = some (r, m')) :
    m'.tape.size = tape.size ∧
      ((r = .ok () ∧ code.size ≤ m'.counter) ∨
        ∃ k m x e, executedAt channel code tape world k = some (m, x) ∧ r = .error e ∧
          Machine.Fails channel x m e m') := by
  rw [execute_eq_run channel code fuel htape] at h
  obtain ⟨k, m, hafter, hlast⟩ := (Machine.drives_run channel code).exists_after h
  have hm : m.OnTape tape.size :=
    after_invariant (fun _ _ => Machine.next_onTape) (Machine.start_onTape htape world) hafter
  obtain ⟨hx, rfl, rfl⟩ | ⟨x, e, hx, hstep, rfl⟩ := Machine.next_eq_error hlast
  · exact ⟨hm.size_eq, .inl ⟨rfl, Array.getElem?_eq_none_iff.mp hx⟩⟩
  · have hfails := Machine.fails_of_step hm (hcode x (Array.mem_of_getElem? hx)) hstep
    refine ⟨hfails.size_eq.trans hm.size_eq, .inr ⟨k, m, x, e, ?_, rfl, hfails⟩⟩
    exact instructionAt_eq_some.mpr ⟨lacksCells_eq_false htape, hafter, hx⟩

/-- An observed run ends behind the code, by its observer or with a failing instruction. -/
theorem stops_of_observe (hcode : NoStrayJumps code) (htape : tape ≠ #[]) {ending : Ending ε}
    (h : observe channel observer code fuel tape world = some (ending, m')) :
    m'.tape.size = tape.size ∧
      ((ending = .finished ∧ code.size ≤ m'.counter) ∨
        ∃ k m x, observedAt channel observer code tape world k = some (m, x) ∧
          Machine.Stops channel observer x m ending m') := by
  rw [observe, lacksCells_eq_false htape, if_neg Bool.false_ne_true] at h
  obtain ⟨k, m, hafter, hlast⟩ := (Machine.drives_watch channel observer code).exists_after h
  have hm : m.OnTape tape.size :=
    after_invariant (fun _ _ => Machine.turn_onTape) (Machine.start_onTape htape world) hafter
  have hat {x : Instruction} (hx : code[m.counter]? = some x) :
      observedAt channel observer code tape world k = some (m, x) :=
    instructionAt_eq_some.mpr ⟨lacksCells_eq_false htape, hafter, hx⟩
  obtain ⟨hx, rfl, rfl⟩ | ⟨x, world, hx, hlast⟩ := Machine.turn_eq_error hlast
  · exact ⟨hm.size_eq, .inl ⟨rfl, Array.getElem?_eq_none_iff.mp hx⟩⟩
  · have hstops : Machine.Stops channel observer x m ending m' := by
      obtain ⟨hobserver, rfl, rfl⟩ | ⟨cause, hobserver, rfl, rfl⟩ | ⟨e, hobserver, hstep, rfl⟩ :=
        hlast
      · exact .halted hobserver
      · exact .interrupted hobserver
      · exact .failed hobserver (Machine.fails_of_step (hm.withWorld world)
          (hcode x (Array.mem_of_getElem? hx)) hstep)
    exact ⟨hstops.size_eq.trans hm.size_eq, .inr ⟨k, m, x, hat hx, hstops⟩⟩

end Programs

/-- **A run stays in bounds.** Compiled code has no stray jumps. On code without stray jumps and a
tape with cells, every instruction that a plain or an observed run comes to stands in the code, the
data pointer is then on a cell of the tape, and the tape keeps its number of cells. Such a run ends
only with its counter behind the code, with an instruction that would move the data pointer from
the last cell forward or from the first one back, with an instruction whose stream fails, or by its
observer. -/
theorem run_stays_in_bounds :
    (∀ {settings : CompileSettings} {source : Feed} {disk disk' : Disk} {p : Program},
      Program.compile settings source disk = (.ok p, disk') → NoStrayJumps p.code) ∧
    ∀ {code : Code} {tape : Tape}, NoStrayJumps code → tape ≠ #[] →
      ∀ {ω ε : Type} (channel : Channel ω) (observer : Observer ω ε) (world : ω),
        (∀ k m x, executedAt channel code tape world k = some (m, x) ∨
            observedAt channel observer code tape world k = some (m, x) →
          (0 ≤ (m.snapshot x).index ∧ (m.snapshot x).index < code.size) ∧
          (0 ≤ (m.snapshot x).pointer ∧ (m.snapshot x).pointer < tape.size) ∧
          code[m.counter]? = some x ∧ m.tape[m.pointer]? = some m.cell ∧
          m.tape.size = tape.size) ∧
        (∀ fuel r m', execute channel code fuel tape world = some (r, m') →
          m'.tape.size = tape.size ∧
            ((r = .ok () ∧ code.size ≤ m'.counter) ∨
              ∃ k m x e, executedAt channel code tape world k = some (m, x) ∧ r = .error e ∧
                Machine.Fails channel x m e m')) ∧
        ∀ fuel ending m', observe channel observer code fuel tape world = some (ending, m') →
          m'.tape.size = tape.size ∧
            ((ending = .finished ∧ code.size ≤ m'.counter) ∨
              ∃ k m x, observedAt channel observer code tape world k = some (m, x) ∧
                Machine.Stops channel observer x m ending m') := by
  refine ⟨Program.noStrayJumps_of_compile, ?_⟩
  intro code tape hcode htape ω ε channel observer world
  refine ⟨?_, fun fuel r m' => fails_of_execute hcode htape,
    fun fuel ending m' => stops_of_observe hcode htape⟩
  intro k m x h
  have hm : m.OnTape tape.size := h.elim onTape_of_executedAt onTape_of_observedAt
  have hx : code[m.counter]? = some x :=
    h.elim (fun h => (instructionAt_eq_some.mp h).2.2) (fun h => (instructionAt_eq_some.mp h).2.2)
  have hcounter := (Array.getElem?_eq_some_iff.mp hx).1
  have hpointer := hm.pointer_lt
  simp only [Machine.snapshot]
  exact ⟨by omega, by omega, hx, hm.getElem?_pointer, hm.size_eq⟩

/-- An instruction without an operation and a jump far behind the code do no harm; the move past
the only cell is found out. -/
theorem run_stays_in_bounds_of_one_cell :
    ∃ (code : Code) (streams : MemoryStreams) (m' : Machine MemoryStreams),
      code =
        #[{ target := -5 }, { op := some .moveForward }, { op := some .loopEnd, target := 9 }] ∧
      NoStrayJumps code ∧ (#[0] : Tape) ≠ #[] ∧
      execute MemoryStreams.channel code 5 #[0] streams =
        some (.error (.outOfRange 1 1 1), m') ∧
      ∃ k m x, executedAt MemoryStreams.channel code #[0] streams k = some (m, x) ∧
        Machine.Fails MemoryStreams.channel x m (.outOfRange 1 1 1) m' := by
  have hcode : NoStrayJumps
      #[{ target := -5 }, { op := some .moveForward }, { op := some .loopEnd, target := 9 }] := by
    unfold NoStrayJumps
    decide
  have htape : (#[0] : Tape) ≠ #[] := by simp
  have hrun : ∃ m', execute MemoryStreams.channel
      #[{ target := -5 }, { op := some .moveForward }, { op := some .loopEnd, target := 9 }] 5 #[0]
      { reader := .ofBytes [], writer := { capacity := 0 } } =
        some (.error (.outOfRange 1 1 1), m') := ⟨_, rfl⟩
  obtain ⟨m', hm'⟩ := hrun
  refine ⟨_, _, m', rfl, hcode, htape, hm', ?_⟩
  obtain ⟨-, hends, -⟩ := run_stays_in_bounds.2 hcode htape MemoryStreams.channel
    (fun _ streams => (Signal.halt, streams) : Observer MemoryStreams Unit)
    { reader := .ofBytes [], writer := { capacity := 0 } }
  obtain ⟨-, ⟨hok, -⟩ | ⟨k, m, x, e, hat, he, hfails⟩⟩ := hends 5 _ m' hm'
  · cases hok
  · cases he
    exact ⟨k, m, x, hat, hfails⟩

end Brainfuck
