import Brainfuck.Proofs.Safety

/-!
# Runs on related streams

A program knows its streams by their answers only. If two channels give the same answers as long as
their states are related, then the same code does the same on both.

## Main Definitions

* `Channel.Keeps` — what the operations of a channel preserve, and how they fail
* `Channel.Follows` — two channels with the same answers, up to errors that are excused
* `RunError.cause?`, `Direction.failure` — the stream error behind an error of a run, and back
* `Machine.onto` — a machine with other streams
* `Machine.Agree` — what runs on two such channels have in common

## Main Results

* `Machine.step_kept`, `Machine.run_kept`, `execute_kept` — what a channel keeps, one instruction
  and whole runs keep
* `execute_failed`, `op_of_execute_output` — a run that ends with an error of a stream ends at an
  instruction on that stream
* `Machine.step_agree`, `Machine.run_agree`, `execute_agree` — one instruction and whole runs on two
  channels

## Design Notes

The excused errors are those of the first channel alone: it gives up where the second one may go
on. What the excuse says about the two states must last while only the second one changes, so that
it still holds when the second run has ended as well. In all other cases the two runs execute the
same number of instructions.
-/

namespace Brainfuck

variable {ω ω' : Type}

/-- The two ends of a program. -/
inductive Direction where
  | input
  | output
  deriving DecidableEq, Repr

/-- The same operation on two streams: they give the same answer and are left in related states, or
the first ones fail with an error that is excused. -/
inductive SameAnswer {α : Type} (R : ω → ω' → Prop) (Excused : StreamError → ω → ω' → Prop) :
    Except StreamError α × ω → Except StreamError α × ω' → Prop where
  | same {r : Except StreamError α} {w : ω} {w' : ω'} : R w w' →
      SameAnswer R Excused (r, w) (r, w')
  | excused {e : StreamError} {w : ω} {b : Except StreamError α × ω'} : Excused e w b.2 →
      SameAnswer R Excused (.error e, w) b

/-- Every operation of a channel preserves `P`, and as long as `P` holds it fails with errors of `Q`
only. -/
structure Channel.Keeps (channel : Channel ω) (P : ω → Prop) (Q : StreamError → Prop) : Prop where
  get : ∀ {w}, P w → P (channel.get w).2
  put : ∀ {w} b, P w → P (channel.put b w).2
  get_error : ∀ {w e}, P w → (channel.get w).1 = .error e → Q e
  put_error : ∀ {w e} b, P w → (channel.put b w).1 = .error e → Q e

/-- Two channels give the same answers on related states, and an excuse lasts. -/
structure Channel.Follows (channel : Channel ω) (channel' : Channel ω') (R : ω → ω' → Prop)
    (Excused : Direction → StreamError → ω → ω' → Prop) : Prop where
  get : ∀ {w w'}, R w w' → SameAnswer R (Excused .input) (channel.get w) (channel'.get w')
  put : ∀ {w w'} b, R w w' → SameAnswer R (Excused .output) (channel.put b w) (channel'.put b w')
  lasts : ∀ d e w, channel'.Keeps (Excused d e w) fun _ => True

/-- The stream error behind an error of a run, and the end at which it happened. -/
def RunError.cause? : RunError → Option (Direction × StreamError)
  | output _ e => some (.output, e)
  | input _ e => some (.input, e)
  | outOfRange .. => none
  | strayJump _ => none

/-- The error of a run at an instruction on one of the ends. -/
def Direction.failure : Direction → Nat → StreamError → RunError
  | input => .input
  | output => .output

theorem RunError.eq_failure_of_cause? {e : RunError} {d : Direction} {cause : StreamError}
    (h : e.cause? = some (d, cause)) : ∃ instruction, e = d.failure instruction cause := by
  cases e with
  | output instruction e =>
      cases h
      exact ⟨instruction, rfl⟩
  | input instruction e =>
      cases h
      exact ⟨instruction, rfl⟩
  | outOfRange => cases h
  | strayJump target => cases h

namespace Machine

variable {channel : Channel ω} {channel' : Channel ω'} {R : ω → ω' → Prop}
  {Excused : Direction → StreamError → ω → ω' → Prop} {m : Machine ω} {w' : ω'} {code : Code}

/-! ## One channel -/

/-- The streams are left with `P`, and an error that comes from them is one of `Q`. -/
structure Kept (P : ω → Prop) (Q : StreamError → Prop) (result : Except RunError Unit × Machine ω) :
    Prop where
  world : P result.2.world
  cause : ∀ e d cause, result.1 = .error e → e.cause? = some (d, cause) → Q cause

variable {P : ω → Prop} {Q : StreamError → Prop}

theorem kept_ok (h : P m.world) : Kept P Q (.ok (), m) := by
  refine ⟨h, ?_⟩
  intro e d cause he
  cases he

theorem kept_error {e : RunError} (h : P m.world) (he : e.cause? = none) :
    Kept P Q (.error e, m) := by
  refine ⟨h, ?_⟩
  intro e' d cause he' hcause
  cases he'
  cases he.symm.trans hcause

theorem jump_kept (hm : P m.world) (target : Int) : Kept P Q (m.jump target) := by
  cases target with
  | ofNat counter => exact kept_ok hm
  | negSucc n => exact kept_error hm rfl

/-- What a channel keeps, an instruction keeps. -/
theorem step_kept (h : channel.Keeps P Q) (hm : P m.world) (x : Instruction) :
    Kept P Q (m.step channel x) := by
  unfold step
  rcases x.op with _ | c
  · exact kept_ok hm
  cases c with
  | moveForward =>
      dsimp only
      split
      · exact kept_ok hm
      · exact kept_error hm rfl
  | moveBackward =>
      dsimp only
      split
      · exact kept_ok hm
      · exact kept_error hm rfl
  | increment => exact kept_ok hm
  | decrement => exact kept_ok hm
  | output =>
      have hworld := h.put m.cell.toUInt32.toUInt8 hm
      have herror {e : StreamError} := h.put_error (e := e) m.cell.toUInt32.toUInt8 hm
      dsimp only
      rw [output_eq]
      generalize channel.put m.cell.toUInt32.toUInt8 m.world = answer at hworld herror
      rcases answer with ⟨e | _, w⟩
      · refine ⟨hworld, ?_⟩
        intro e' d cause he' hcause
        cases he'
        cases hcause
        exact herror rfl
      · exact kept_ok hworld
  | input =>
      have hworld := h.get hm
      have herror {e : StreamError} := h.get_error (e := e) hm
      dsimp only
      rw [input_eq]
      generalize channel.get m.world = answer at hworld herror
      rcases answer with ⟨e | b, w⟩
      · refine ⟨hworld, ?_⟩
        intro e' d cause he' hcause
        cases he'
        cases hcause
        exact herror rfl
      · exact kept_ok hworld
  | loopStart =>
      dsimp only
      split
      · exact jump_kept hm _
      · exact kept_ok hm
  | loopEnd => exact jump_kept hm _

theorem next_kept (h : channel.Keeps P Q) {m' : Machine ω} (hnext : m.next channel code = .ok m')
    (hm : P m.world) : P m'.world := by
  obtain ⟨x, -, hstep⟩ := next_eq_ok hnext
  have hkept := (step_kept h hm x).world
  rwa [hstep] at hkept

/-- What a channel keeps, a run keeps. -/
theorem run_kept (h : channel.Keeps P Q) (hm : P m.world) {fuel : Nat}
    {result : Except RunError Unit × Machine ω} (hrun : m.run channel code fuel = some result) :
    Kept P Q result := by
  obtain ⟨k, m₁, hafter, hlast⟩ := (drives_run channel code).exists_after hrun
  have hm₁ : P m₁.world :=
    after_invariant (P := fun m => P m.world) (fun _ _ => next_kept h) hm hafter
  obtain ⟨r, m'⟩ := result
  obtain ⟨-, rfl, rfl⟩ | ⟨x, e, -, hstep, rfl⟩ := next_eq_error hlast
  · exact kept_ok hm₁
  · have hkept := step_kept h hm₁ x
    rwa [hstep] at hkept

/-! ## Two channels -/

/-- The same machine with other streams. -/
def onto (m : Machine ω) (world : ω') : Machine ω' :=
  { tape := m.tape, pointer := m.pointer, counter := m.counter, world }

/-- Two runs on related streams: both need more instructions, or both have the same result and
leave related streams, or the first one has ended with an error that is excused, and still is when
the second one has ended. -/
inductive Agree (R : ω → ω' → Prop) (Excused : Direction → StreamError → ω → ω' → Prop) :
    Option (Except RunError Unit × Machine ω) → Option (Except RunError Unit × Machine ω') →
      Prop where
  | none : Agree R Excused none none
  | same {r : Except RunError Unit} {m : Machine ω} {w' : ω'} : R m.world w' →
      Agree R Excused (some (r, m)) (some (r, m.onto w'))
  | excused {e : RunError} {d : Direction} {cause : StreamError} {m : Machine ω} {w' : ω'}
      {b : Option (Except RunError Unit × Machine ω')} : e.cause? = some (d, cause) →
      Excused d cause m.world w' →
      (∀ r m', b = some (r, m') → Excused d cause m.world m'.world) →
      Agree R Excused (some (.error e, m)) b

/-- A jump does not see the streams. -/
theorem jump_agree (hw : R m.world w') (target : Int) :
    Agree R Excused (some (m.jump target)) (some ((m.onto w').jump target)) := by
  cases target with
  | ofNat counter => exact .same hw
  | negSucc n => exact .same hw

theorem output_agree (h : channel.Follows channel' R Excused) (hw : R m.world w') :
    Agree R Excused (some (m.output channel)) (some ((m.onto w').output channel')) := by
  have hput := h.put m.cell.toUInt32.toUInt8 hw
  have hcell : (m.onto w').cell = m.cell := rfl
  have hworld : (m.onto w').world = w' := rfl
  rw [output_eq, output_eq, hcell, hworld]
  generalize channel.put m.cell.toUInt32.toUInt8 m.world = a,
    channel'.put m.cell.toUInt32.toUInt8 w' = b at hput
  cases hput with
  | @same r w₁ w₁' hw₁ =>
      rcases r with e | _
      · exact .same hw₁
      · exact .same hw₁
  | excused he =>
      refine .excused rfl he ?_
      rcases b with ⟨e | _, w₁'⟩
      · rintro r m' heq
        cases heq
        exact he
      · rintro r m' heq
        cases heq
        exact he

theorem input_agree (h : channel.Follows channel' R Excused) (hw : R m.world w') :
    Agree R Excused (some (m.input channel)) (some ((m.onto w').input channel')) := by
  have hget := h.get hw
  have hworld : (m.onto w').world = w' := rfl
  rw [input_eq, input_eq, hworld]
  generalize channel.get m.world = a, channel'.get w' = b at hget
  cases hget with
  | @same r w₁ w₁' hw₁ =>
      rcases r with e | byte
      · exact .same hw₁
      · exact .same hw₁
  | excused he =>
      refine .excused rfl he ?_
      rcases b with ⟨e | byte, w₁'⟩
      · rintro r m' heq
        cases heq
        exact he
      · rintro r m' heq
        cases heq
        exact he

/-- An instruction does the same on both streams. -/
theorem step_agree (h : channel.Follows channel' R Excused) (hw : R m.world w')
    (x : Instruction) :
    Agree R Excused (some (m.step channel x)) (some ((m.onto w').step channel' x)) := by
  have hcell : (m.onto w').cell = m.cell := rfl
  have hpointer : (m.onto w').pointer = m.pointer := rfl
  have htape : (m.onto w').tape = m.tape := rfl
  unfold step
  rcases x.op with _ | c
  · exact .same hw
  cases c with
  | moveForward =>
      dsimp only
      rw [hpointer, htape]
      by_cases hlt : m.pointer + 1 < m.tape.size
      · rw [if_pos hlt, if_pos hlt]
        exact .same hw
      · rw [if_neg hlt, if_neg hlt]
        exact .same hw
  | moveBackward =>
      dsimp only
      rw [hpointer, htape]
      cases m.pointer with
      | zero => exact .same hw
      | succ pointer => exact .same hw
  | increment => exact .same hw
  | decrement => exact .same hw
  | output => exact output_agree h hw
  | input => exact input_agree h hw
  | loopStart =>
      dsimp only
      rw [hcell]
      by_cases hzero : m.cell = 0
      · rw [if_pos hzero, if_pos hzero]
        exact jump_agree hw _
      · rw [if_neg hzero, if_neg hzero]
        exact .same hw
  | loopEnd => exact jump_agree hw _

/-- A run that has come to its end does the same on both streams. -/
theorem agree_of_none (hw : R m.world w') (fuel : Nat) (hx : code[m.counter]? = none) :
    Agree R Excused (m.run channel code fuel) ((m.onto w').run channel' code fuel) := by
  have hx' : code[(m.onto w').counter]? = none := hx
  rw [run_of_none hx, run_of_none hx']
  exact .same hw

/-- A run does the same on both streams. -/
theorem run_agree (h : channel.Follows channel' R Excused) (hw : R m.world w') (code : Code)
    (fuel : Nat) :
    Agree R Excused (m.run channel code fuel) ((m.onto w').run channel' code fuel) := by
  induction fuel generalizing m w' with
  | zero =>
      cases hx : code[m.counter]? with
      | none => exact agree_of_none hw 0 hx
      | some x =>
          have hx' : code[(m.onto w').counter]? = some x := hx
          rw [run_zero hx, run_zero hx']
          exact .none
  | succ fuel ih =>
      cases hx : code[m.counter]? with
      | none => exact agree_of_none hw (fuel + 1) hx
      | some x =>
          have hx' : code[(m.onto w').counter]? = some x := hx
          have hstep := step_agree h hw x
          generalize ha : m.step channel x = a, hb : (m.onto w').step channel' x = b at hstep
          cases hstep with
          | @same r m₁ w₁' hw₁ =>
              rcases r with e | _
              · rw [run_succ_of_error hx ha, run_succ_of_error hx' hb]
                exact .same hw₁
              · rw [run_succ_of_ok hx ha, run_succ_of_ok hx' hb]
                exact ih hw₁
          | excused hcause he hlasts =>
              rw [run_succ_of_error hx ha]
              refine .excused hcause he ?_
              intro r' m' hrun
              -- the second run may go on; the excuse lasts until it ends
              rcases b with ⟨e' | _, m₁'⟩
              · rw [run_succ_of_error hx' hb] at hrun
                cases hrun
                exact hlasts _ _ rfl
              · rw [run_succ_of_ok hx' hb] at hrun
                exact (run_kept (h.lasts _ _ _) (hlasts _ _ rfl) hrun).world

end Machine

/-- What a channel keeps, the run of a program keeps. -/
theorem execute_kept {channel : Channel ω} {P : ω → Prop} {Q : StreamError → Prop}
    (h : channel.Keeps P Q) {code : Code} {fuel : Nat} {tape : Tape} {w : ω} (hw : P w)
    {result : Except RunError Unit × Machine ω}
    (hrun : execute channel code fuel tape w = some result) : Machine.Kept P Q result := by
  unfold execute at hrun
  split at hrun
  · cases hrun
    exact Machine.kept_error hw rfl
  · exact Machine.run_kept h hw hrun

/-- A program that ends with an error of a stream ends at an instruction on that stream. What the
channel keeps holds up to there. -/
theorem execute_failed {channel : Channel ω} {P : ω → Prop} {Q : StreamError → Prop}
    (h : channel.Keeps P Q) {code : Code} {fuel : Nat} {tape : Tape} {w : ω} (hw : P w)
    {e : RunError} {m' : Machine ω} (hrun : execute channel code fuel tape w = some (.error e, m'))
    {d : Direction} {cause : StreamError} (hcause : e.cause? = some (d, cause)) :
    ∃ m x, code[m.counter]? = some x ∧ P m.world ∧ Machine.Fails channel x m e m' := by
  obtain hcells | hcode | ⟨htape, hrun⟩ := execute_eq_some hrun
  · cases hcells
    cases hcause
  · cases hcode
  obtain ⟨k, m, hafter, hlast⟩ := (Machine.drives_run channel code).exists_after hrun
  have hm : m.OnTape tape.size :=
    after_invariant (fun _ _ => Machine.next_onTape) (Machine.start_onTape htape w) hafter
  have hworld : P m.world :=
    after_invariant (P := fun m => P m.world) (fun _ _ => Machine.next_kept h) hw hafter
  obtain ⟨-, hok, -⟩ | ⟨x, e', hx, hstep, he'⟩ := Machine.next_eq_error hlast
  · cases hok
  cases he'
  have houtcome := Machine.outcome_step hm channel x
  rw [hstep] at houtcome
  cases houtcome with
  | fails hfails => exact ⟨m, x, hx, hworld, hfails⟩
  | stray _ _ => cases hcause

/-- An error of the output names an instruction that writes. -/
theorem op_of_execute_output {channel : Channel ω} {code : Code} {fuel : Nat} {tape : Tape} {w : ω}
    {index : Nat} {e : StreamError} {m' : Machine ω}
    (hrun : execute channel code fuel tape w = some (.error (.output index e), m')) :
    ∃ x, code[index]? = some x ∧ x.op = some .output := by
  have hkeeps : channel.Keeps (fun _ => True) fun _ => True := by
    constructor <;> intros <;> trivial
  obtain ⟨m, x, hx, -, hfails⟩ := execute_failed hkeeps trivial hrun rfl
  cases hfails with
  | output hop _ => exact ⟨x, hx, hop⟩

/-- A program does the same on both streams. -/
theorem execute_agree {channel : Channel ω} {channel' : Channel ω'} {R : ω → ω' → Prop}
    {Excused : Direction → StreamError → ω → ω' → Prop} (h : channel.Follows channel' R Excused)
    {w : ω}
    {w' : ω'} (hw : R w w') (code : Code) (fuel : Nat) (tape : Tape) :
    Machine.Agree R Excused (execute channel code fuel tape w)
      (execute channel' code fuel tape w') := by
  unfold execute
  by_cases hcells : lacksCells code tape = true
  · rw [if_pos hcells, if_pos hcells]
    exact .same hw
  · rw [if_neg hcells, if_neg hcells]
    exact Machine.run_agree h hw code fuel

end Brainfuck
