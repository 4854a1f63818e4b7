import Brainfuck.Proofs.Safety

/-!
# Longer tapes

A run reads and writes only the cells that its data pointer comes to. With more cells behind the
last one, it does the same as long as it does not try to go there.

## Main Definitions

* `RunError.onTape` — the same error on a tape of another size
* `Machine.widened` — a machine with more cells behind its tape
* `Machine.widenedResult` — the result of a run, seen on the longer tape

## Main Results

* `Machine.step_widened`, `Machine.run_widened` — one instruction and whole runs on a longer tape
* `longer_tape_changes_nothing` — programs on a longer tape
-/

namespace Brainfuck

/-- The same error on a tape of `size` cells. -/
def RunError.onTape (size : Nat) : RunError → RunError
  | outOfRange pointer _ index => outOfRange pointer size index
  | e => e

namespace Machine

variable {ω : Type} {channel : Channel ω} {code : Code} {m m' : Machine ω} {size : Nat}

/-- A machine with more cells behind its tape. -/
def widened (m : Machine ω) (more : Tape) : Machine ω :=
  { m with tape := m.tape ++ more }

/-- The result of a run, seen on a tape with more cells behind the last one. -/
def widenedResult (more : Tape) (result : Except RunError Unit × Machine ω) :
    Except RunError Unit × Machine ω :=
  (result.1.mapError (·.onTape (result.2.tape.size + more.size)), result.2.widened more)

/-! ## One instruction -/

theorem OnTape.cell_widened (hm : m.OnTape size) (more : Tape) :
    (m.widened more).cell = m.cell := by
  have hlt : m.pointer < m.tape.size := hm.size_eq.symm ▸ hm.pointer_lt
  simp only [cell, widened, Array.getD_eq_getD_getElem?, Array.getElem?_append_left hlt]

/-- A cell of the tape changes alike, whatever follows the last one. -/
theorem OnTape.update_widened (hm : m.OnTape size) (more : Tape) (f : Int32 → Int32) :
    (m.widened more).update f = (m.update f).widened more := by
  have hlt : m.pointer < m.tape.size := hm.size_eq.symm ▸ hm.pointer_lt
  have htape : (m.tape ++ more).modify m.pointer f = m.tape.modify m.pointer f ++ more := by
    apply Array.ext (by simp)
    intro i hi _
    rw [Array.getElem_modify]
    by_cases hi' : i < m.tape.size
    · rw [Array.getElem_append_left hi', Array.getElem_append_left (by simpa using hi'),
        Array.getElem_modify]
    · have hne : m.pointer ≠ i := by omega
      rw [if_neg hne, Array.getElem_append_right (by omega),
        Array.getElem_append_right (by simpa using hi')]
      simp
  show { m with tape := (m.tape ++ more).modify m.pointer f, counter := m.counter + 1 } = _
  rw [htape]
  rfl

theorem jump_widened (m : Machine ω) (more : Tape) (target : Int) :
    (m.widened more).jump target = widenedResult more (m.jump target) := by
  cases target with
  | ofNat counter => rfl
  | negSucc n => rfl

theorem OnTape.output_widened (hm : m.OnTape size) (more : Tape) :
    (m.widened more).output channel = widenedResult more (m.output channel) := by
  have hworld : (m.widened more).world = m.world := rfl
  rw [output_eq, output_eq, hm.cell_widened, hworld]
  rcases channel.put m.cell.toUInt32.toUInt8 m.world with ⟨e | _, world⟩
  · rfl
  · rfl

theorem OnTape.input_widened (hm : m.OnTape size) (more : Tape) :
    (m.widened more).input channel = widenedResult more (m.input channel) := by
  have hworld : (m.widened more).world = m.world := rfl
  rw [input_eq, input_eq, hworld]
  rcases channel.get m.world with ⟨e | b, world⟩
  · rfl
  · have hupdate := (hm.withWorld world).update_widened more fun _ => b.toUInt32.toInt32
    exact congrArg (Prod.mk (Except.ok ())) hupdate

/-- An instruction does the same with more cells behind the tape, unless it would leave the tape at
its upper end. -/
theorem step_widened (hm : m.OnTape size) (channel : Channel ω) (more : Tape) (x : Instruction) :
    m.step channel x = (.error (.outOfRange size size m.counter), m) ∨
      (m.widened more).step channel x = widenedResult more (m.step channel x) := by
  have hcell := hm.cell_widened more
  unfold step
  rcases x.op with _ | c
  · exact .inr rfl
  cases c with
  | moveForward =>
      have hlt := hm.pointer_lt
      have hsize : (m.widened more).tape.size = m.tape.size + more.size := Array.size_append
      have hpointer : (m.widened more).pointer = m.pointer := rfl
      dsimp only
      by_cases hnext : m.pointer + 1 < m.tape.size
      · rw [if_pos hnext, if_pos (by omega)]
        exact .inr rfl
      · -- the data pointer stands on the last cell
        have hlast : (m.pointer : Int) + 1 = size := by
          have := hm.size_eq
          omega
        rw [if_neg hnext, hlast, hm.size_eq]
        exact .inl rfl
  | moveBackward =>
      have hpointer : (m.widened more).pointer = m.pointer := rfl
      have hsize : (m.widened more).tape.size = m.tape.size + more.size := Array.size_append
      dsimp only
      rw [hpointer, hsize]
      cases m.pointer with
      | zero => exact .inr rfl
      | succ pointer => exact .inr rfl
  | increment => exact .inr (congrArg (Prod.mk (Except.ok ())) (hm.update_widened more _))
  | decrement => exact .inr (congrArg (Prod.mk (Except.ok ())) (hm.update_widened more _))
  | output => exact .inr (hm.output_widened more)
  | input => exact .inr (hm.input_widened more)
  | loopStart =>
      dsimp only
      rw [hcell]
      by_cases hzero : m.cell = 0
      · rw [if_pos hzero, if_pos hzero]
        exact .inr (m.jump_widened more _)
      · rw [if_neg hzero, if_neg hzero]
        exact .inr rfl
  | loopEnd => exact .inr (m.jump_widened more _)

/-! ## Whole runs -/

/-- A run that has not left the tape at its upper end does the same on a longer tape. -/
theorem run_widened (hm : m.OnTape size) (more : Tape) {fuel : Nat} {r : Except RunError Unit}
    (hrun : m.run channel code fuel = some (r, m'))
    (hend : ∀ s index, r ≠ .error (.outOfRange size s index)) :
    (m.widened more).run channel code fuel = some (widenedResult more (r, m')) := by
  induction fuel generalizing m with
  | zero =>
      cases hx : code[m.counter]? with
      | none =>
          rw [run_of_none hx] at hrun
          cases hrun
          exact run_of_none hx
      | some x =>
          rw [run_zero hx] at hrun
          cases hrun
  | succ fuel ih =>
      cases hx : code[m.counter]? with
      | none =>
          rw [run_of_none hx] at hrun
          cases hrun
          exact run_of_none hx
      | some x =>
          have hwidened := step_widened hm channel more x
          have hx' : code[(m.widened more).counter]? = some x := hx
          rcases hstep : m.step channel x with ⟨e | _, m₁⟩
          · rw [run_succ_of_error hx hstep] at hrun
            cases hrun
            rw [hstep] at hwidened
            rcases hwidened with hleft | hwidened
            · -- this is the only instruction that would do something else
              cases hleft
              exact absurd rfl (hend _ _)
            · exact run_succ_of_error hx' hwidened
          · rw [run_succ_of_ok hx hstep] at hrun
            rw [hstep] at hwidened
            rcases hwidened with hleft | hwidened
            · cases hleft
            · rw [run_succ_of_ok hx' hwidened]
              exact ih (step_onTape hm hstep) hrun

/-- A run on the tape leaves it at one of its ends only, and keeps its number of cells. -/
theorem range_of_run (hm : m.OnTape size) {fuel : Nat} {r : Except RunError Unit}
    (hrun : m.run channel code fuel = some (r, m')) :
    m'.tape.size = size ∧ ∀ pointer s index, r = .error (.outOfRange pointer s index) →
      s = size ∧ (pointer = size ∨ pointer = -1) := by
  obtain ⟨k, m₁, hafter, hlast⟩ := (drives_run channel code).exists_after hrun
  have hm₁ : m₁.OnTape size := after_invariant (fun _ _ => next_onTape) hm hafter
  have hsize := hm₁.size_eq
  obtain ⟨-, rfl, rfl⟩ | ⟨x, e, -, hstep, rfl⟩ := next_eq_error hlast
  · refine ⟨hsize, ?_⟩
    intro pointer s index hr
    cases hr
  · have houtcome := outcome_step hm₁ channel x
    rw [hstep] at houtcome
    cases houtcome with
    | stray _ _ =>
        refine ⟨hsize, ?_⟩
        intro pointer s index hr
        cases hr
    | fails hfails =>
        refine ⟨hfails.size_eq.trans hsize, ?_⟩
        rintro pointer s index hr
        cases hr
        cases hfails with
        | above _ _ => exact ⟨hsize, .inl (congrArg Nat.cast hsize)⟩
        | below _ _ => exact ⟨hsize, .inr rfl⟩

end Machine

/-! ## Programs -/

variable {ω : Type} {channel : Channel ω} {code : Code} {fuel : Nat} {tape : Tape} {world : ω}
  {r : Except RunError Unit} {m' : Machine ω}

theorem execute_nil (channel : Channel ω) (fuel : Nat) (tape : Tape) (world : ω) :
    execute channel #[] fuel tape world = some (.ok (), Machine.start tape world) := by
  rw [execute, if_neg (by simp [lacksCells]), Machine.run_of_none (by simp)]

/-- A program keeps the number of cells. -/
theorem execute_size (hrun : execute channel code fuel tape world = some (r, m')) :
    m'.tape.size = tape.size := by
  obtain hcells | hcode | ⟨htape, hrun⟩ := execute_eq_some hrun
  · cases hcells
    rfl
  · cases hcode
    rfl
  · exact (Machine.range_of_run (Machine.start_onTape htape world) hrun).1

/-- **A longer tape changes nothing until the upper end is hit.** Let a program end on a tape in any
way but with the data pointer behind the last cell. Then it ends on the tape with more cells behind
it as well, within the same number of instructions. It leaves the streams, the data pointer and the
cells of the shorter tape the same, and the other cells as they were. The result is the same too;
only the error at the lower end names the number of cells. -/
theorem longer_tape_changes_nothing (hrun : execute channel code fuel tape world = some (r, m'))
    (hend : ∀ size index, r ≠ .error (.outOfRange tape.size size index)) (more : Tape) :
    ∃ r', execute channel code fuel (tape ++ more) world =
        some (r', { m' with tape := m'.tape ++ more }) ∧
      m'.tape.size = tape.size ∧
      (r' = r ∨ ∃ index, r = .error (.outOfRange (-1) tape.size index) ∧
        r' = .error (.outOfRange (-1) (tape.size + more.size) index)) := by
  by_cases hcode : code = #[]
  · subst hcode
    rw [execute_nil] at hrun
    cases hrun
    exact ⟨.ok (), execute_nil channel fuel (tape ++ more) world, rfl, .inl rfl⟩
  have htape : tape ≠ #[] := by
    rintro rfl
    -- without cells the upper end is left before the first instruction
    have hcells : lacksCells code #[] = true := by simp [lacksCells, hcode]
    rw [execute, if_pos hcells] at hrun
    cases hrun
    exact hend 0 0 rfl
  have htape' : tape ++ more ≠ #[] := by simp [htape]
  have hstart := Machine.start_onTape htape world
  rw [execute_eq_run channel code fuel htape] at hrun
  obtain ⟨hsize, hrange⟩ := Machine.range_of_run hstart hrun
  refine ⟨_, (execute_eq_run channel code fuel htape' world).trans
    (Machine.run_widened hstart more hrun hend), hsize, ?_⟩
  rcases r with e | _
  · cases e with
    | outOfRange pointer size index =>
        obtain ⟨rfl, rfl | rfl⟩ := hrange pointer size index rfl
        · exact absurd rfl (hend _ _)
        · refine .inr ⟨index, rfl, ?_⟩
          simp only [Except.mapError, RunError.onTape, hsize]
    | output index cause => exact .inl rfl
    | input index cause => exact .inl rfl
    | strayJump target => exact .inl rfl
  · exact .inl rfl

/-- A program that moves to the second cell, reads a byte there and then leaves the tape at its
lower end. The third cell is not touched, but it counts. -/
theorem longer_tape_changes_nothing_below_zero :
    ∃ (code : Code) (streams : MemoryStreams) (m' : Machine MemoryStreams),
      code.map (·.op) = #[some .moveForward, some .input, some .moveBackward, some .moveBackward] ∧
      execute MemoryStreams.channel code 4 #[3, 4] streams =
        some (.error (.outOfRange (-1) 2 3), m') ∧
      (∀ size index, (.error (.outOfRange (-1) 2 3) : Except RunError Unit) ≠
        .error (.outOfRange (#[3, 4] : Tape).size size index)) ∧
      m'.tape = #[3, 0x61] ∧
      execute MemoryStreams.channel code 4 (#[3, 4] ++ #[5]) streams =
        some (.error (.outOfRange (-1) 3 3), { m' with tape := m'.tape ++ #[5] }) := by
  have hrun : ∃ m', execute MemoryStreams.channel
      #[{ op := some .moveForward }, { op := some .input }, { op := some .moveBackward },
        { op := some .moveBackward }] 4 #[3, 4]
      { reader := .ofBytes [0x61], writer := { capacity := 0 } } =
        some (.error (.outOfRange (-1) 2 3), m') ∧ m'.tape = #[3, 0x61] := ⟨_, rfl, rfl⟩
  obtain ⟨m', hm', htape⟩ := hrun
  have hend : ∀ size index, (.error (.outOfRange (-1) 2 3) : Except RunError Unit) ≠
      .error (.outOfRange (#[3, 4] : Tape).size size index) := by
    intro size index h
    cases h
  obtain ⟨r', hlonger, -, hsame | ⟨index, hr, hr'⟩⟩ := longer_tape_changes_nothing hm' hend #[5]
  · subst hsame
    cases hlonger
  · cases hr
    subst hr'
    exact ⟨_, _, m', by simp, hm', hend, htape, hlonger⟩

end Brainfuck
