import Brainfuck.Machine

/-!
# Runs

A run is given with the number of instructions that it may execute. Here it is freed of this
number: a run ends with a result, or it does not end.

## Main Definitions

* `Machine.Ends` — a run ends with a result

## Main Results

* `Machine.run_mono` — a larger number never changes a result
* `Machine.Ends.unique` — a run ends in one way
* `Machine.ends_of_step`, `Machine.exists_run_of_step` — a run and what is left of it after a step
* `execute_eq_some`, `execute_mono`, `execute_unique` — runs from the start of a program
-/

namespace Brainfuck

namespace Machine

variable {ω : Type} {channel : Channel ω} {code : Code} {m m' : Machine ω}
  {r r' : Except RunError Unit × Machine ω} {x : Instruction} {fuel fuel' : Nat}

/-- A run ends with a result: some number of instructions is enough for it. -/
def Ends (channel : Channel ω) (code : Code) (m : Machine ω)
    (r : Except RunError Unit × Machine ω) : Prop :=
  ∃ fuel, m.run channel code fuel = some r

theorem run_of_none (h : code[m.counter]? = none) :
    m.run channel code fuel = some (.ok (), m) := by
  unfold run
  rw [h]

theorem run_zero (h : code[m.counter]? = some x) : m.run channel code 0 = none := by
  unfold run
  rw [h]

theorem run_succ_of_ok (h : code[m.counter]? = some x)
    (hstep : m.step channel x = (.ok (), m')) :
    m.run channel code (fuel + 1) = m'.run channel code fuel := by
  rw [run]
  simp only [h, hstep]

theorem run_succ_of_error {e : RunError} (h : code[m.counter]? = some x)
    (hstep : m.step channel x = (.error e, m')) :
    m.run channel code (fuel + 1) = some (.error e, m') := by
  unfold run
  simp only [h, hstep]

/-- A run that ends within a number of instructions ends the same way within any larger one. -/
theorem run_mono (h : m.run channel code fuel = some r) (hle : fuel ≤ fuel') :
    m.run channel code fuel' = some r := by
  induction fuel generalizing m fuel' with
  | zero =>
      cases hx : code[m.counter]? with
      | none => rwa [run_of_none hx] at h ⊢
      | some x =>
          rw [run_zero hx] at h
          cases h
  | succ fuel ih =>
      cases hx : code[m.counter]? with
      | none => rwa [run_of_none hx] at h ⊢
      | some x =>
          obtain ⟨fuel', rfl⟩ : ∃ k, fuel' = k + 1 := ⟨fuel' - 1, by omega⟩
          cases hstep : m.step channel x with
          | mk result m' =>
              cases result with
              | ok _ =>
                  rw [run_succ_of_ok hx hstep] at h ⊢
                  exact ih h (by omega)
              | error e =>
                  rw [run_succ_of_error hx hstep] at h ⊢
                  exact h

/-- A run ends in one way. -/
theorem Ends.unique (h : Ends channel code m r) (h' : Ends channel code m r') : r = r' := by
  obtain ⟨fuel, h⟩ := h
  obtain ⟨fuel', h'⟩ := h'
  have hmax := run_mono h (Nat.le_max_left fuel fuel')
  rw [run_mono h' (Nat.le_max_right fuel fuel')] at hmax
  exact (Option.some.inj hmax).symm

theorem ends_of_none (h : code[m.counter]? = none) : Ends channel code m (.ok (), m) :=
  ⟨0, run_of_none h⟩

theorem ends_of_error {e : RunError} (h : code[m.counter]? = some x)
    (hstep : m.step channel x = (.error e, m')) : Ends channel code m (.error e, m') :=
  ⟨1, run_succ_of_error h hstep⟩

/-- A run that takes a step ends if the run after the step does, in the same way. -/
theorem ends_of_step (h : code[m.counter]? = some x)
    (hstep : m.step channel x = (.ok (), m')) (hends : Ends channel code m' r) :
    Ends channel code m r := by
  obtain ⟨fuel, hrun⟩ := hends
  exact ⟨fuel + 1, by rw [run_succ_of_ok h hstep, hrun]⟩

/-- What is left of a run after a step needs fewer instructions. -/
theorem exists_run_of_step (h : code[m.counter]? = some x)
    (hstep : m.step channel x = (.ok (), m')) (hrun : m.run channel code fuel = some r) :
    ∃ fuel' < fuel, m'.run channel code fuel' = some r := by
  cases fuel with
  | zero =>
      rw [run_zero h] at hrun
      cases hrun
  | succ fuel =>
      rw [run_succ_of_ok h hstep] at hrun
      exact ⟨fuel, Nat.lt_succ_self fuel, hrun⟩

end Machine

/-- A program on a tape with cells runs from its start. -/
theorem execute_eq_run {ω : Type} (channel : Channel ω) (code : Code) (fuel : Nat) {tape : Tape}
    (htape : tape ≠ #[]) (world : ω) :
    execute channel code fuel tape world = (Machine.start tape world).run channel code fuel := by
  rw [execute, if_neg]
  simp [lacksCells, htape]

/-- How a program ends: at once, since there is no cell or no instruction, or as the run from its
start does. -/
theorem execute_eq_some {ω : Type} {channel : Channel ω} {code : Code} {fuel : Nat} {tape : Tape}
    {world : ω} {r : Except RunError Unit × Machine ω}
    (h : execute channel code fuel tape world = some r) :
    r = (.error noCells, Machine.start tape world) ∨ r = (.ok (), Machine.start tape world) ∨
      (tape ≠ #[] ∧ (Machine.start tape world).run channel code fuel = some r) := by
  unfold execute at h
  split at h
  · exact .inl (Option.some.inj h).symm
  next hcells =>
  by_cases htape : tape = #[]
  · have hcode : code = #[] := by simpa [lacksCells, htape] using hcells
    subst hcode
    rw [Machine.run_of_none (by simp)] at h
    exact .inr (.inl (Option.some.inj h).symm)
  · exact .inr (.inr ⟨htape, h⟩)

/-- A program that ends within a number of instructions ends the same way within any larger one. -/
theorem execute_mono {ω : Type} {channel : Channel ω} {code : Code} {fuel fuel' : Nat} {tape : Tape}
    {world : ω} {r : Except RunError Unit × Machine ω}
    (h : execute channel code fuel tape world = some r) (hle : fuel ≤ fuel') :
    execute channel code fuel' tape world = some r := by
  unfold execute at h ⊢
  split
  · next hcells => rwa [if_pos hcells] at h
  · next hcells =>
      rw [if_neg hcells] at h
      exact Machine.run_mono h hle

/-- A program ends in one way, whatever the bound on its instructions. -/
theorem execute_unique {ω : Type} {channel : Channel ω} {code : Code} {fuel fuel' : Nat}
    {tape : Tape} {world : ω} {r r' : Except RunError Unit × Machine ω}
    (h : execute channel code fuel tape world = some r)
    (h' : execute channel code fuel' tape world = some r') : r = r' := by
  have hmax := execute_mono h (Nat.le_max_left fuel fuel')
  rw [execute_mono h' (Nat.le_max_right fuel fuel')] at hmax
  exact (Option.some.inj hmax).symm

end Brainfuck
