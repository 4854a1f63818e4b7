import Brainfuck.Proofs.Runs

/-!
# Turns

A run goes from one machine to the next, and where it cannot go on it has a result. Here the single
turns of a run are taken apart from the bound on their number, so that the machine before any
instruction of a run can be spoken of, also if the run never ends.

## Main Definitions

* `after` — the state after a number of turns
* `Drives` — a bounded run takes the turns of a function
* `Lockstep` — two turns with related outcomes
* `Machine.next`, `Machine.turn` — the turns of a plain and of an observed run
* `executedAt`, `observedAt` — the machine before an instruction of a run, by the number of the
  instruction

## Main Results

* `after_invariant`, `after_simulation` — from single turns to any number of them
* `Drives.exists_after`, `Drives.eq_some_of_after` — a bounded run ends with the result of its last
  turn
* `Drives.lockstep` — bounded runs of turns in lockstep end alike
* `Machine.drives_run`, `Machine.drives_watch` — the runs of machines are of this kind

## Design Notes

The number of turns grows at the end of `after`, since invariants and simulations follow a run
forwards. A bounded run is taken apart at its start; `after_succ_of_ok` joins the two.
-/

namespace Brainfuck

/-! ## Turns of any kind -/

section Iteration

variable {α β ρ τ : Type} {next : α → Except ρ α} {next' : β → Except τ β} {a b c : α} {r : ρ}
  {n k : Nat}

/-- The state after `n` turns, if none of them ends the run. -/
def after (next : α → Except ρ α) (a : α) : Nat → Option α
  | 0 => some a
  | n + 1 => (after next a n).bind fun b => (next b).toOption

theorem after_succ_eq_some :
    after next a (n + 1) = some c ↔ ∃ b, after next a n = some b ∧ next b = .ok c := by
  rw [after, Option.bind_eq_some_iff]
  refine exists_congr fun b => and_congr_right fun _ => ?_
  cases next b with
  | ok d => simp [Except.toOption]
  | error r => simp [Except.toOption]

/-- A state that is reached was reached through all numbers of turns before. -/
theorem exists_after_of_le (h : after next a n = some b) (hle : k ≤ n) :
    ∃ c, after next a k = some c := by
  induction n generalizing b with
  | zero => exact ⟨b, by rwa [Nat.le_zero.mp hle]⟩
  | succ n ih =>
      rcases Nat.eq_or_lt_of_le hle with rfl | hlt
      · exact ⟨b, h⟩
      · obtain ⟨c, hc, -⟩ := after_succ_eq_some.mp h
        exact ih hc (Nat.le_of_lt_succ hlt)

/-- The turns after the first one are the turns of the next state. -/
theorem after_succ_of_ok (h : next a = .ok b) (n : Nat) :
    after next a (n + 1) = after next b n := by
  induction n with
  | zero => exact after_succ_eq_some.mpr ⟨a, rfl, h⟩
  | succ n ih => rw [after, ih, after]

/-- What every turn preserves holds after any number of turns. -/
theorem after_invariant {P : α → Prop} (hnext : ∀ b c, next b = .ok c → P b → P c) (ha : P a)
    (h : after next a n = some b) : P b := by
  induction n generalizing b with
  | zero =>
      cases h
      exact ha
  | succ n ih =>
      obtain ⟨c, hc, hb⟩ := after_succ_eq_some.mp h
      exact hnext c b hb (ih hc)

/-- If every turn has a counterpart, then so has any number of turns. -/
theorem after_simulation {R : α → β → Prop}
    (hnext : ∀ a a' b, R a b → next a = .ok a' → ∃ b', next' b = .ok b' ∧ R a' b') {a' : α} {b : β}
    (hab : R a b) (h : after next a n = some a') : ∃ b', after next' b n = some b' ∧ R a' b' := by
  induction n generalizing a' with
  | zero =>
      cases h
      exact ⟨b, rfl, hab⟩
  | succ n ih =>
      obtain ⟨a₁, ha₁, hturn⟩ := after_succ_eq_some.mp h
      obtain ⟨b₁, hb₁, hR⟩ := ih ha₁
      obtain ⟨b', hturn', hR'⟩ := hnext a₁ a' b₁ hR hturn
      exact ⟨b', after_succ_eq_some.mpr ⟨b₁, hb₁, hturn'⟩, hR'⟩

/-- A run with a bound on its turns takes the turns of `next` until one of them has a result. With
no turn left it may still see that it has ended. -/
structure Drives (next : α → Except ρ α) (run : Nat → α → Option ρ) : Prop where
  zero : ∀ {a r}, run 0 a = some r → next a = .error r
  succ_of_ok : ∀ {a b}, next a = .ok b → ∀ n, run (n + 1) a = run n b
  succ_of_error : ∀ {a r}, next a = .error r → ∀ n, run (n + 1) a = some r

/-- Two turns both go on, to related states, or both have a result, and these are related. -/
inductive Lockstep (R : α → β → Prop) (S : ρ → τ → Prop) : Except ρ α → Except τ β → Prop where
  | ok {a : α} {b : β} : R a b → Lockstep R S (.ok a) (.ok b)
  | error {r : ρ} {t : τ} : S r t → Lockstep R S (.error r) (.error t)

namespace Drives

variable {run : Nat → α → Option ρ} {run' : Nat → β → Option τ}

/-- The result of a bounded run is that of a turn after some others. -/
theorem exists_after (h : Drives next run) (hrun : run n a = some r) :
    ∃ k b, after next a k = some b ∧ next b = .error r := by
  induction n generalizing a with
  | zero => exact ⟨0, a, rfl, h.zero hrun⟩
  | succ n ih =>
      cases hturn : next a with
      | ok b =>
          rw [h.succ_of_ok hturn] at hrun
          obtain ⟨k, c, hc, hlast⟩ := ih hrun
          exact ⟨k + 1, c, by rw [after_succ_of_ok hturn, hc], hlast⟩
      | error r' =>
          rw [h.succ_of_error hturn] at hrun
          cases hrun
          exact ⟨0, a, rfl, hturn⟩

/-- A bounded run that is long enough ends with the result of the turn that has one. -/
theorem eq_some_of_after (h : Drives next run) (hafter : after next a k = some b)
    (hlast : next b = .error r) (hlt : k < n) : run n a = some r := by
  induction n generalizing a k with
  | zero => exact absurd hlt (Nat.not_lt_zero k)
  | succ n ih =>
      cases k with
      | zero =>
          cases hafter
          exact h.succ_of_error hlast n
      | succ k =>
          cases hturn : next a with
          | ok c =>
              rw [after_succ_of_ok hturn] at hafter
              rw [h.succ_of_ok hturn]
              exact ih hafter (Nat.lt_of_succ_lt_succ hlt)
          | error r' =>
              -- a first turn with a result leaves no state for later turns
              obtain ⟨c, hc⟩ := exists_after_of_le hafter (Nat.succ_pos k)
              obtain ⟨a', ha', hturn'⟩ := after_succ_eq_some.mp hc
              cases ha'
              cases hturn.symm.trans hturn'

/-- Bounded runs whose turns are in lockstep end alike, with the same bound. -/
theorem lockstep (h : Drives next run) (h' : Drives next' run') {R : α → β → Prop}
    {S : ρ → τ → Prop} (hnext : ∀ a b, R a b → Lockstep R S (next a) (next' b))
    (hzero : ∀ a b, R a b → Option.Rel S (run 0 a) (run' 0 b)) {b : β} (hab : R a b) (n : Nat) :
    Option.Rel S (run n a) (run' n b) := by
  induction n generalizing a b with
  | zero => exact hzero a b hab
  | succ n ih =>
      have hturn := hnext a b hab
      generalize ha : next a = turn, hb : next' b = turn' at hturn
      cases hturn with
      | ok hR =>
          rw [h.succ_of_ok ha, h'.succ_of_ok hb]
          exact ih hR
      | error hS =>
          rw [h.succ_of_error ha, h'.succ_of_error hb]
          exact .some hS

/-- Two bounded runs that take the same turns and see the same ends are one. -/
theorem unique {run' : Nat → α → Option ρ} (h : Drives next run) (h' : Drives next run')
    (hzero : ∀ a, run 0 a = run' 0 a) (n : Nat) (a : α) : run n a = run' n a := by
  have hnext : ∀ a b, a = b → Lockstep Eq Eq (next a) (next b) := by
    rintro a _ rfl
    cases next a with
    | ok b => exact .ok rfl
    | error r => exact .error rfl
  have hends : ∀ a b, a = b → Option.Rel Eq (run 0 a) (run' 0 b) := by
    rintro a _ rfl
    rw [← hzero a]
    cases run 0 a with
    | none => exact .none
    | some r => exact .some rfl
  have hsame := h.lockstep h' hnext hends (Eq.refl a) n
  generalize run n a = result, run' n a = result' at hsame
  cases hsame with
  | none => rfl
  | some heq => rw [heq]

end Drives

end Iteration

/-! ## Turns of machines -/

namespace Machine

variable {ω ε : Type}

/-- One turn of a plain run. -/
def next (channel : Channel ω) (code : Code) (m : Machine ω) :
    Except (Except RunError Unit × Machine ω) (Machine ω) :=
  match code[m.counter]? with
  | none => .error (.ok (), m)
  | some x =>
    match m.step channel x with
    | (.ok (), m) => .ok m
    | (.error e, m) => .error (.error e, m)

/-- One turn of an observed run: the observer decides, then the instruction is executed. -/
def turn (channel : Channel ω) (observer : Observer ω ε) (code : Code) (m : Machine ω) :
    Except (Ending ε × Machine ω) (Machine ω) :=
  match code[m.counter]? with
  | none => .error (.finished, m)
  | some x =>
    match observer (m.snapshot x) m.world with
    | (.halt, world) => .error (.halted, { m with world })
    | (.fail cause, world) => .error (.interrupted cause, { m with world })
    | (.proceed, world) =>
      match step channel x { m with world } with
      | (.ok (), m) => .ok m
      | (.error e, m) => .error (.failed e, m)

variable {channel : Channel ω} {observer : Observer ω ε} {code : Code} {m m' : Machine ω}

theorem next_of_none (h : code[m.counter]? = none) : m.next channel code = .error (.ok (), m) := by
  rw [next, h]

theorem turn_of_none (h : code[m.counter]? = none) :
    m.turn channel observer code = .error (.finished, m) := by
  rw [turn, h]

theorem watch_of_none {fuel : Nat} (h : code[m.counter]? = none) :
    m.watch channel observer code fuel = some (.finished, m) := by
  unfold watch
  rw [h]

theorem watch_zero {x : Instruction} (h : code[m.counter]? = some x) :
    m.watch channel observer code 0 = none := by
  unfold watch
  rw [h]

theorem next_eq_ok (h : m.next channel code = .ok m') :
    ∃ x, code[m.counter]? = some x ∧ m.step channel x = (.ok (), m') := by
  unfold next at h
  split at h
  · cases h
  · next x hx =>
      split at h
      · next hstep =>
          cases h
          exact ⟨x, hx, hstep⟩
      · cases h

/-- How a turn of a plain run can be its last one. -/
theorem next_eq_error {r : Except RunError Unit} (h : m.next channel code = .error (r, m')) :
    (code[m.counter]? = none ∧ r = .ok () ∧ m' = m) ∨
      ∃ x e, code[m.counter]? = some x ∧ m.step channel x = (.error e, m') ∧ r = .error e := by
  unfold next at h
  split at h
  · next hx =>
      cases h
      exact .inl ⟨hx, rfl, rfl⟩
  · next x hx =>
      split at h
      · cases h
      · next e m₁ hstep =>
          cases h
          exact .inr ⟨x, e, hx, hstep, rfl⟩

theorem turn_eq_ok (h : m.turn channel observer code = .ok m') :
    ∃ x world, code[m.counter]? = some x ∧ observer (m.snapshot x) m.world = (.proceed, world) ∧
      step channel x { m with world } = (.ok (), m') := by
  unfold turn at h
  split at h
  · cases h
  · next x hx =>
      split at h
      · cases h
      · cases h
      · next world hobserver =>
          split at h
          · next hstep =>
              cases h
              exact ⟨x, world, hx, hobserver, hstep⟩
          · cases h

/-- How a turn of an observed run can be its last one. -/
theorem turn_eq_error {ending : Ending ε} (h : m.turn channel observer code = .error (ending, m')) :
    (code[m.counter]? = none ∧ ending = .finished ∧ m' = m) ∨
      ∃ x world, code[m.counter]? = some x ∧
        ((observer (m.snapshot x) m.world = (.halt, world) ∧ ending = .halted ∧
            m' = { m with world }) ∨
          (∃ cause, observer (m.snapshot x) m.world = (.fail cause, world) ∧
            ending = .interrupted cause ∧ m' = { m with world }) ∨
          ∃ e, observer (m.snapshot x) m.world = (.proceed, world) ∧
            step channel x { m with world } = (.error e, m') ∧ ending = .failed e) := by
  unfold turn at h
  split at h
  · next hx =>
      cases h
      exact .inl ⟨hx, rfl, rfl⟩
  · next x hx =>
      refine .inr ⟨x, ?_⟩
      split at h
      · next world hobserver =>
          cases h
          exact ⟨world, hx, .inl ⟨hobserver, rfl, rfl⟩⟩
      · next cause world hobserver =>
          cases h
          exact ⟨world, hx, .inr (.inl ⟨cause, hobserver, rfl, rfl⟩)⟩
      · next world hobserver =>
          split at h
          · cases h
          · next e m₁ hstep =>
              cases h
              exact ⟨world, hx, .inr (.inr ⟨e, hobserver, hstep, rfl⟩)⟩

/-- A plain run takes the turns of `next`. -/
theorem drives_run (channel : Channel ω) (code : Code) :
    Drives (next channel code) fun fuel m => m.run channel code fuel where
  zero := by
    intro m r hrun
    cases hx : code[m.counter]? with
    | none =>
        rw [run_of_none hx] at hrun
        cases hrun
        exact next_of_none hx
    | some x =>
        rw [run_zero hx] at hrun
        cases hrun
  succ_of_ok := by
    intro m m' hturn fuel
    obtain ⟨x, hx, hstep⟩ := next_eq_ok hturn
    exact run_succ_of_ok hx hstep
  succ_of_error := by
    rintro m ⟨r, m'⟩ hturn fuel
    obtain ⟨hx, rfl, rfl⟩ | ⟨x, e, hx, hstep, rfl⟩ := next_eq_error hturn
    · exact run_of_none hx
    · exact run_succ_of_error hx hstep

/-- An observed run takes the turns of `turn`. -/
theorem drives_watch (channel : Channel ω) (observer : Observer ω ε) (code : Code) :
    Drives (turn channel observer code) fun fuel m => m.watch channel observer code fuel where
  zero := by
    intro m r hrun
    cases hx : code[m.counter]? with
    | none =>
        rw [watch_of_none hx] at hrun
        cases hrun
        exact turn_of_none hx
    | some x =>
        rw [watch_zero hx] at hrun
        cases hrun
  succ_of_ok := by
    intro m m' hturn fuel
    obtain ⟨x, world, hx, hobserver, hstep⟩ := turn_eq_ok hturn
    rw [watch]
    simp only [hx, hobserver, hstep]
  succ_of_error := by
    rintro m ⟨ending, m'⟩ hturn fuel
    rw [watch]
    obtain ⟨hx, rfl, rfl⟩ | ⟨x, world, hx, ⟨hobserver, rfl, rfl⟩ | ⟨cause, hobserver, rfl, rfl⟩ |
      ⟨e, hobserver, hstep, rfl⟩⟩ := turn_eq_error hturn
    · simp only [hx]
    · simp only [hx, hobserver]
    · simp only [hx, hobserver]
    · simp only [hx, hobserver, hstep]

end Machine

/-! ## Instructions by their number -/

section Programs

variable {ω ε ρ : Type}

/-- The machine before instruction number `k`, counted from zero, of a run from the start of a
program, together with this instruction. The run takes the turns of `next`. -/
def instructionAt (next : Machine ω → Except ρ (Machine ω)) (code : Code) (tape : Tape) (world : ω)
    (k : Nat) : Option (Machine ω × Instruction) :=
  if lacksCells code tape then none
  else (after next (Machine.start tape world) k).bind fun m => code[m.counter]?.map (m, ·)

/-- The machine before an instruction of a plain run, together with the instruction. -/
def executedAt (channel : Channel ω) (code : Code) : Tape → ω → Nat →
    Option (Machine ω × Instruction) :=
  instructionAt (Machine.next channel code) code

/-- The machine before an instruction is shown to the observer of a run, together with the
instruction. -/
def observedAt (channel : Channel ω) (observer : Observer ω ε) (code : Code) : Tape → ω → Nat →
    Option (Machine ω × Instruction) :=
  instructionAt (Machine.turn channel observer code) code

theorem instructionAt_eq_some {next : Machine ω → Except ρ (Machine ω)} {code : Code} {tape : Tape}
    {world : ω} {k : Nat} {m : Machine ω} {x : Instruction} :
    instructionAt next code tape world k = some (m, x) ↔
      lacksCells code tape = false ∧ after next (.start tape world) k = some m ∧
        code[m.counter]? = some x := by
  rw [instructionAt]
  cases lacksCells code tape with
  | true => simp
  | false =>
      simp only [Bool.false_eq_true, if_false, true_and, Option.bind_eq_some_iff,
        Option.map_eq_some_iff, Prod.mk.injEq]
      constructor
      · rintro ⟨m', hafter, y, hy, rfl, rfl⟩
        exact ⟨hafter, hy⟩
      · rintro ⟨hafter, hx⟩
        exact ⟨m, hafter, x, hx, rfl, rfl⟩

/-- A run that comes to an instruction has a cell for it. -/
theorem ne_empty_of_instructionAt {next : Machine ω → Except ρ (Machine ω)} {code : Code}
    {tape : Tape} {world : ω} {k : Nat} {m : Machine ω} {x : Instruction}
    (h : instructionAt next code tape world k = some (m, x)) : tape ≠ #[] := by
  obtain ⟨hcells, -, hx⟩ := instructionAt_eq_some.mp h
  rintro rfl
  have hcode : code = #[] := by simpa [lacksCells] using hcells
  simp [hcode] at hx

theorem lacksCells_eq_false {code : Code} {tape : Tape} (htape : tape ≠ #[]) :
    lacksCells code tape = false := by
  simp [lacksCells, htape]

end Programs

end Brainfuck
