import Brainfuck.Proofs.Tracing
import Brainfuck.Proofs.Turns
import Brainfuck.Stepper

/-!
# Transparency of traces

A program that was compiled with a trace runs like the one that was compiled without, and a stepped
run shows the same text. The lines of a trace are the only difference, and the text of an
instruction without a line shows the number that its line would have.

## Main Definitions

* `ReadsText` — an observer that sees nothing of an instruction but its text
* `shownAt` — the text of an instruction of an observed run, by the number of the instruction

## Main Results

* `stepText_untraced` — the text of an instruction with and without its line
* `execute_untraced`, `observe_untraced`, `shownAt_untraced` — runs of code with and without lines
* `tracing_is_transparent` — compilation and runs with and without a trace
-/

namespace Brainfuck

variable {ω ε : Type}

/-- An observer that sees nothing of an instruction but its text. -/
def ReadsText (observer : Observer ω ε) : Prop :=
  ∀ seen seen' world, stepText seen = stepText seen' → observer seen world = observer seen' world

/-- The text of instruction number `k`, counted from zero, of an observed run. -/
def shownAt (channel : Channel ω) (observer : Observer ω ε) (code : Code) (tape : Tape) (world : ω)
    (k : Nat) : Option Bytes :=
  (observedAt channel observer code tape world k).map fun (m, x) => stepText (m.snapshot x)

/-- A stepper sees nothing but text. -/
theorem Stepper.readsText_step : ReadsText (Session.observer Stepper.step) := by
  rintro seen seen' ⟨console, stepper⟩ h
  simp only [Session.observer, Stepper.step, h]

variable {channel : Channel ω} {observer : Observer ω ε} {code : Code}

/-- If an instruction knows its line, its text is the same without it. -/
theorem stepText_untraced (hcode : Draft.Lined true code) {m : Machine ω} {x : Instruction}
    (hx : code[m.counter]? = some x) :
    stepText (m.snapshot x.untraced) = stepText (m.snapshot x) := by
  have hline : x.line = (m.counter : Int) + 1 := hcode.line_eq hx
  -- a line is never zero, so the text does not fall back on the index
  have hne : (m.counter : Int) + 1 ≠ 0 := by omega
  simp [stepText, Machine.snapshot, Instruction.untraced, hline, hne]

/-! ## Turns and runs -/

namespace Machine

/-- A turn of a plain run does not see lines. -/
theorem next_untraced (channel : Channel ω) (code : Code) :
    next channel (code.map Instruction.untraced) = next channel code := by
  funext m
  rw [next, next, Array.getElem?_map]
  cases code[m.counter]? with
  | none => rfl
  | some x => rfl

/-- A turn under an observer that reads text does not see the lines of a trace. -/
theorem turn_untraced (channel : Channel ω) (hobserver : ReadsText observer)
    (hcode : Draft.Lined true code) :
    turn channel observer (code.map Instruction.untraced) = turn channel observer code := by
  funext m
  rw [turn, turn, Array.getElem?_map]
  cases hx : code[m.counter]? with
  | none => rfl
  | some x =>
      have hsame := hobserver _ _ m.world (stepText_untraced hcode hx)
      simp only [Option.map_some, hsame]
      rfl

theorem run_untraced (channel : Channel ω) (code : Code) (fuel : Nat) (m : Machine ω) :
    m.run channel (code.map Instruction.untraced) fuel = m.run channel code fuel := by
  have hdrives := drives_run channel (code.map Instruction.untraced)
  rw [next_untraced] at hdrives
  refine hdrives.unique (drives_run channel code) (fun m => ?_) fuel m
  cases hx : code[m.counter]? with
  | none => rw [run_of_none hx, run_of_none (by rw [Array.getElem?_map, hx, Option.map_none])]
  | some x => rw [run_zero hx, run_zero (by rw [Array.getElem?_map, hx, Option.map_some])]

theorem watch_untraced (channel : Channel ω) (hobserver : ReadsText observer)
    (hcode : Draft.Lined true code) (fuel : Nat) (m : Machine ω) :
    m.watch channel observer (code.map Instruction.untraced) fuel =
      m.watch channel observer code fuel := by
  have hdrives := drives_watch channel observer (code.map Instruction.untraced)
  rw [turn_untraced channel hobserver hcode] at hdrives
  refine hdrives.unique (drives_watch channel observer code) (fun m => ?_) fuel m
  cases hx : code[m.counter]? with
  | none => rw [watch_of_none hx, watch_of_none (by rw [Array.getElem?_map, hx, Option.map_none])]
  | some x => rw [watch_zero hx, watch_zero (by rw [Array.getElem?_map, hx, Option.map_some])]

end Machine

/-! ## Programs -/

theorem lacksCells_untraced (code : Code) (tape : Tape) :
    lacksCells (code.map Instruction.untraced) tape = lacksCells code tape := by
  simp only [lacksCells, Array.isEmpty, Array.size_map]

/-- Plain runs do not see lines. -/
theorem execute_untraced (channel : Channel ω) (code : Code) (fuel : Nat) (tape : Tape)
    (world : ω) :
    execute channel (code.map Instruction.untraced) fuel tape world =
      execute channel code fuel tape world := by
  rw [execute, execute, lacksCells_untraced, Machine.run_untraced]

/-- Runs under an observer that reads text do not see the lines of a trace. -/
theorem observe_untraced (channel : Channel ω) (hobserver : ReadsText observer)
    (hcode : Draft.Lined true code) (fuel : Nat) (tape : Tape) (world : ω) :
    observe channel observer (code.map Instruction.untraced) fuel tape world =
      observe channel observer code fuel tape world := by
  rw [observe, observe, lacksCells_untraced, Machine.watch_untraced channel hobserver hcode]

/-- Such an observer is shown the same texts, one after the other. -/
theorem shownAt_untraced (channel : Channel ω) (hobserver : ReadsText observer)
    (hcode : Draft.Lined true code) (tape : Tape) (world : ω) (k : Nat) :
    shownAt channel observer (code.map Instruction.untraced) tape world k =
      shownAt channel observer code tape world k := by
  rw [shownAt, shownAt, observedAt, observedAt, Machine.turn_untraced channel hobserver hcode,
    instructionAt, instructionAt, lacksCells_untraced]
  split
  · rfl
  cases after (Machine.turn channel observer code) (Machine.start tape world) k with
  | none => rfl
  | some m =>
      simp only [Option.bind_some, Array.getElem?_map]
      cases hx : code[m.counter]? with
      | none => rfl
      | some x => exact congrArg some (stepText_untraced hcode hx)

/-- **Tracing is transparent.** If the trace can be written, a source is rejected with and without
it, with the same error, or it is accepted with and without it. Then the two codes differ in the
lines only: plain runs are the same, and so are runs under an observer that reads nothing but the
text of an instruction, which is shown the same texts one after the other. The runs of a stepper
are of this kind. -/
theorem tracing_is_transparent {t : TraceSettings} {disk : Disk} (hwritable : t.Writable disk)
    (strict : Bool) (source : Feed) :
    (∃ e : CompileError, e.IsRejection ∧
      Program.compile { strict, trace := some t } source disk = (.error e, disk) ∧
      Program.compile { strict } source disk = (.error e, disk)) ∨
    ∃ p q disk', Program.compile { strict, trace := some t } source disk = (.ok p, disk') ∧
      Program.compile { strict } source disk = (.ok q, disk) ∧
      q.code = p.code.map (fun x => { x with line := 0 }) ∧
      (∀ {ω : Type} (channel : Channel ω) fuel tape world,
        execute channel q.code fuel tape world = execute channel p.code fuel tape world) ∧
      (∀ {ω ε : Type} (channel : Channel ω) (observer : Observer ω ε), ReadsText observer →
        ∀ tape world,
          (∀ fuel, observe channel observer q.code fuel tape world =
            observe channel observer p.code fuel tape world) ∧
          ∀ k, shownAt channel observer q.code tape world k =
            shownAt channel observer p.code tape world k) ∧
      ∀ (stepper : Stepper) (s : Session) fuel,
        stepper.run s fuel q.code = stepper.run s fuel p.code := by
  by_cases haccepted : source.Accepted strict
  · obtain ⟨d, disk', hd, hp, -⟩ := Program.compile_of_writable haccepted hwritable
    obtain ⟨d', hd', hq⟩ := Program.compile_of_accepted haccepted
    obtain ⟨d₁, hd₁, rfl⟩ := Draft.exists_run_of_untraced hd' true
    cases hd₁.symm.trans hd
    have hcode : Draft.Lined true d.code := Draft.run_lined (Draft.lined_empty true) hd
    refine .inr ⟨_, _, disk', hp, hq disk, rfl, ?_, ?_, ?_⟩
    · intro ω channel fuel tape world
      exact execute_untraced channel d.code fuel tape world
    · intro ω ε channel observer hobserver tape world
      exact ⟨fun fuel => observe_untraced channel hobserver hcode fuel tape world,
        shownAt_untraced channel hobserver hcode tape world⟩
    · intro stepper s fuel
      have hsame := observe_untraced (Console.channel.beside Stepper) Stepper.readsText_step hcode
        fuel s.tape (s.console, stepper)
      simp only [Stepper.run, Session.watch, Draft.untraced, hsame]
  · obtain ⟨e, he, hcompile⟩ := Program.compile_of_rejected haccepted
    exact .inl ⟨e, he, hcompile _ disk, hcompile none disk⟩

/-- A loop that is left open, stepped with and without a trace: its exit has a line, but no
position. -/
theorem tracing_is_transparent_of_open_loop :
    ∃ (t : TraceSettings) (source : Feed), source.bytes = [0x2B, 0x5B] ∧ t.dir ≠ [] ∧
      t.Writable {} ∧
      ∃ p q disk', Program.compile { trace := some t } source {} = (.ok p, disk') ∧
        Program.compile {} source {} = (.ok q, {}) ∧
        q.code = p.code.map (fun x => { x with line := 0 }) ∧
        ∀ (stepper : Stepper) (s : Session) fuel,
          stepper.run s fuel q.code = stepper.run s fuel p.code := by
  have hwritable : TraceSettings.Writable { dir := [0x74], id := [0x69] } {} :=
    ⟨_, _, [], rfl, rfl⟩
  have hok : (Program.compile {} { bytes := [0x2B, 0x5B] } {}).1.isOk = true := rfl
  refine ⟨_, { bytes := [0x2B, 0x5B] }, rfl, by simp, hwritable, ?_⟩
  obtain ⟨e, -, -, herror⟩ | ⟨p, q, disk', hp, hq, hcode, -, -, hsteps⟩ :=
    tracing_is_transparent hwritable false { bytes := [0x2B, 0x5B] }
  · rw [herror] at hok
    cases hok
  · exact ⟨p, q, disk', hp, hq, hcode, hsteps⟩

end Brainfuck
