import Brainfuck.Proofs.Safety

/-!
# Stepping

A stepped run calls a function before every instruction. As long as its answers contain no error,
it is the plain run, and an error ends it just where the plain run would have executed the
instruction.

## Main Definitions

* `Callback` — a function that is called before every instruction
* `Callback.callAt` — a call of a stepped run, by its number, with its answer
* `Ending.result` — what a stepped run returns
* `Machine.pair` — a machine beside the state of a callback

## Main Results

* `Machine.step_pair` — an instruction leaves the state of a callback alone
* `exists_executedAt_of_observedAt`, `exists_observedAt_of_executedAt` — the calls of a stepped run
  and the instructions of the plain run
* `stepping_simulates_executing` — stepped and plain runs compared

## Design Notes

The state of a callback is kept beside the streams. A callback may look at the streams but not
change them: then both runs have the same streams at every instruction, whatever the callback does
with its own state.
-/

namespace Brainfuck

variable {ω σ ε : Type}

/-- A function that is called before every instruction. It sees the instruction and the streams, has
a state of its own, and answers with an error or with none. -/
abbrev Callback (ω σ ε : Type) := Snapshot → ω → σ → Option ε × σ

/-- A callback as an observer. The errors for which `isHalt` holds, those that are or wrap the
request to halt, end the run without an error. -/
def Callback.observer (isHalt : ε → Bool) (fn : Callback ω σ ε) : Observer (ω × σ) ε :=
  fun seen (world, s) =>
    match fn seen world s with
    | (none, s) => (.proceed, world, s)
    | (some e, s) => (if isHalt e then .halt else .fail e, world, s)

theorem Callback.observer_of_none (isHalt : ε → Bool) {fn : Callback ω σ ε} {seen : Snapshot}
    {world : ω} {s s' : σ} (h : fn seen world s = (none, s')) :
    fn.observer isHalt seen (world, s) = (.proceed, world, s') := by
  simp only [observer, h]

theorem Callback.observer_of_some (isHalt : ε → Bool) {fn : Callback ω σ ε} {seen : Snapshot}
    {world : ω} {s s' : σ} {e : ε} (h : fn seen world s = (some e, s')) :
    fn.observer isHalt seen (world, s) =
      (if isHalt e then .halt else .fail e, world, s') := by
  simp only [observer, h]

/-- Call number `k`, counted from zero, of a stepped run: what the callback sees and what it
answers. -/
def Callback.callAt (isHalt : ε → Bool) (fn : Callback ω σ ε) (channel : Channel ω) (code : Code)
    (tape : Tape) (world : ω) (s : σ) (k : Nat) : Option (Snapshot × Option ε) :=
  (observedAt (channel.beside σ) (fn.observer isHalt) code tape (world, s) k).map fun (m, x) =>
    (m.snapshot x, (fn (m.snapshot x) m.world.1 m.world.2).1)

namespace Ending

/-- What a stepped run returns: nothing, the error of the program or that of the callback. -/
def result : Ending ε → Except (RunError ⊕ ε) Unit
  | finished => .ok ()
  | halted => .ok ()
  | interrupted cause => .error (.inr cause)
  | failed cause => .error (.inl cause)

/-- The ending of a run that its callback does not end. -/
def ofResult : Except RunError Unit → Ending ε
  | .ok () => finished
  | .error e => failed e

/-- The ending of a run that an error of its callback ends. -/
def ofError (isHalt : ε → Bool) (e : ε) : Ending ε :=
  if isHalt e then halted else interrupted e

theorem result_ofResult (r : Except RunError Unit) :
    (ofResult r : Ending ε).result = r.mapError .inl := by
  cases r <;> rfl

theorem result_ofError (isHalt : ε → Bool) (e : ε) :
    (ofError isHalt e).result = if isHalt e then .ok () else .error (.inr e) := by
  unfold ofError
  split <;> rfl

end Ending

/-! ## One turn -/

namespace Machine

/-- A machine whose streams are kept beside a state `s`. -/
def pair (m : Machine ω) (s : σ) : Machine (ω × σ) :=
  { tape := m.tape, pointer := m.pointer, counter := m.counter, world := (m.world, s) }

/-- An instruction does the same beside a state, and it leaves the state alone. -/
theorem step_pair (channel : Channel ω) (x : Instruction) (m : Machine ω) (s : σ) :
    (m.pair s).step (channel.beside σ) x =
      ((m.step channel x).1, (m.step channel x).2.pair s) := by
  have hjump (target : Int) :
      (m.pair s).jump target = ((m.jump target).1, (m.jump target).2.pair s) := by
    cases target <;> rfl
  unfold step
  rcases x.op with _ | c
  · rfl
  cases c with
  | moveForward =>
      by_cases hlt : m.pointer + 1 < m.tape.size
      · simp only [pair, hlt, if_true, moveTo]
      · simp only [pair, hlt, if_false]
  | moveBackward =>
      rcases hpointer : m.pointer with _ | n
      · simp only [pair, hpointer]
      · simp only [pair, hpointer, moveTo]
  | increment => rfl
  | decrement => rfl
  | output =>
      have hcell : (m.pair s).cell = m.cell := rfl
      simp only [output_eq, hcell]
      rcases hput : channel.put m.cell.toUInt32.toUInt8 m.world with ⟨_ | _, world⟩
      · simp only [pair, Channel.beside, hput]
      · simp only [pair, Channel.beside, hput]
  | input =>
      simp only [input_eq]
      rcases hget : channel.get m.world with ⟨_ | b, world⟩
      · simp only [pair, Channel.beside, hget]
      · simp only [pair, Channel.beside, hget, update]
  | loopStart =>
      have hcell : (m.pair s).cell = m.cell := rfl
      simp only [hcell]
      by_cases hzero : m.cell = 0
      · simp only [hzero, if_true, hjump]
      · simp only [hzero, if_false]
        rfl
  | loopEnd => exact hjump _

variable {channel : Channel ω} {isHalt : ε → Bool} {fn : Callback ω σ ε} {code : Code}
  {m : Machine ω} {x : Instruction} {s s' : σ}

/-- A call that is answered with an error ends a stepped run; nothing but the state of the callback
has changed. -/
theorem turn_pair_of_some {e : ε} (hx : code[m.counter]? = some x)
    (hfn : fn (m.snapshot x) m.world s = (some e, s')) :
    (m.pair s).turn (channel.beside σ) (fn.observer isHalt) code =
      .error (.ofError isHalt e, m.pair s') := by
  have hcounter : code[(m.pair s).counter]? = some x := hx
  have hobserver : fn.observer isHalt ((m.pair s).snapshot x) (m.pair s).world =
      (if isHalt e then .halt else .fail e, m.world, s') := Callback.observer_of_some isHalt hfn
  unfold turn
  simp only [hcounter, hobserver]
  cases hhalt : isHalt e with
  | true => simp [Ending.ofError, hhalt, pair]
  | false => simp [Ending.ofError, hhalt, pair]

/-- A call that is answered without an error is followed by a turn of the plain run. -/
theorem turn_pair_of_none (hx : code[m.counter]? = some x)
    (hfn : fn (m.snapshot x) m.world s = (none, s')) :
    (m.pair s).turn (channel.beside σ) (fn.observer isHalt) code =
      match m.next channel code with
      | .ok m' => .ok (m'.pair s')
      | .error (r, m') => .error (.ofResult r, m'.pair s') := by
  have hcounter : code[(m.pair s).counter]? = some x := hx
  have hobserver : fn.observer isHalt ((m.pair s).snapshot x) (m.pair s).world =
      (.proceed, m.world, s') := Callback.observer_of_none isHalt hfn
  have hstep : step (channel.beside σ) x { m.pair s with world := (m.world, s') } =
      ((m.step channel x).1, (m.step channel x).2.pair s') := step_pair channel x m s'
  unfold turn next
  simp only [hcounter, hobserver, hstep, hx]
  rcases m.step channel x with ⟨_ | _, m'⟩
  · rfl
  · rfl

/-- A stepped run goes on only where the plain run does. -/
theorem exists_next_of_turn_pair {m' : Machine (ω × σ)}
    (h : (m.pair s).turn (channel.beside σ) (fn.observer isHalt) code = .ok m') :
    ∃ m₁ s₁, m.next channel code = .ok m₁ ∧ m' = m₁.pair s₁ := by
  cases hx : code[m.counter]? with
  | none =>
      have hend : code[(m.pair s).counter]? = none := hx
      rw [turn_of_none hend] at h
      cases h
  | some x =>
      rcases hfn : fn (m.snapshot x) m.world s with ⟨_ | e, s₁⟩
      · rw [turn_pair_of_none hx hfn] at h
        rcases hnext : m.next channel code with r | m₁
        · rw [hnext] at h
          cases h
        · rw [hnext] at h
          cases h
          exact ⟨m₁, s₁, rfl, rfl⟩
      · rw [turn_pair_of_some hx hfn] at h
        cases h

end Machine

/-! ## Calls and instructions -/

section Programs

variable {channel : Channel ω} {isHalt : ε → Bool} {fn : Callback ω σ ε} {code : Code} {tape : Tape}
  {world : ω} {s : σ} {k : Nat} {m : Machine ω} {x : Instruction}

/-- Before any of its calls a stepped run has done what the plain run does up to there. -/
theorem exists_executedAt_of_observedAt {m' : Machine (ω × σ)}
    (h : observedAt (channel.beside σ) (fn.observer isHalt) code tape (world, s) k = some (m', x)) :
    ∃ m s', m' = m.pair s' ∧ executedAt channel code tape world k = some (m, x) := by
  obtain ⟨hcells, hafter, hx⟩ := instructionAt_eq_some.mp h
  have hturns : ∀ (m' m'' : Machine (ω × σ)) (m : Machine ω), (∃ s', m' = m.pair s') →
      m'.turn (channel.beside σ) (fn.observer isHalt) code = .ok m'' →
      ∃ m₁, m.next channel code = .ok m₁ ∧ ∃ s', m'' = m₁.pair s' := by
    rintro _ m'' m ⟨s', rfl⟩ hturn
    obtain ⟨m₁, s₁, hnext, rfl⟩ := Machine.exists_next_of_turn_pair hturn
    exact ⟨m₁, hnext, s₁, rfl⟩
  have hstart : ∃ s', Machine.start tape (world, s) = (Machine.start tape world).pair s' :=
    ⟨s, rfl⟩
  obtain ⟨m, hm, s', rfl⟩ := after_simulation hturns hstart hafter
  exact ⟨m, s', rfl, instructionAt_eq_some.mpr ⟨hcells, hm, hx⟩⟩

/-- A call of a stepped run, taken apart. -/
theorem callAt_eq_some {seen : Snapshot} {answer : Option ε}
    (h : fn.callAt isHalt channel code tape world s k = some (seen, answer)) :
    ∃ m x s' s'', executedAt channel code tape world k = some (m, x) ∧
      observedAt (channel.beside σ) (fn.observer isHalt) code tape (world, s) k =
        some (m.pair s', x) ∧
      seen = m.snapshot x ∧ fn (m.snapshot x) m.world s' = (answer, s'') := by
  rw [Callback.callAt, Option.map_eq_some_iff] at h
  obtain ⟨⟨m', x⟩, hat, heq⟩ := h
  obtain ⟨m, s', rfl, hexec⟩ := exists_executedAt_of_observedAt hat
  obtain ⟨hseen, hanswer⟩ := Prod.mk.inj heq
  refine ⟨m, x, s', (fn (m.snapshot x) m.world s').2, hexec, hat, hseen.symm, ?_⟩
  rw [← hanswer]
  rfl

theorem callAt_of_observedAt {m' : Machine (ω × σ)}
    (h : observedAt (channel.beside σ) (fn.observer isHalt) code tape (world, s) k = some (m', x)) :
    fn.callAt isHalt channel code tape world s k =
      some (m'.snapshot x, (fn (m'.snapshot x) m'.world.1 m'.world.2).1) := by
  rw [Callback.callAt, h]
  rfl

/-- No call before number `k` is answered with an error. -/
def Callback.QuietBefore (isHalt : ε → Bool) (fn : Callback ω σ ε) (channel : Channel ω)
    (code : Code) (tape : Tape) (world : ω) (s : σ) (k : Nat) : Prop :=
  ∀ j < k, ∀ seen e, fn.callAt isHalt channel code tape world s j ≠ some (seen, some e)

/-- Every instruction of the plain run is shown to the callback, unless this has answered with an
error before. -/
theorem exists_observedAt_of_executedAt (h : executedAt channel code tape world k = some (m, x))
    (hquiet : fn.QuietBefore isHalt channel code tape world s k) :
    ∃ s', observedAt (channel.beside σ) (fn.observer isHalt) code tape (world, s) k =
      some (m.pair s', x) := by
  obtain ⟨hcells, hafter, hx⟩ := instructionAt_eq_some.mp h
  suffices hturns : ∃ s', after (Machine.turn (channel.beside σ) (fn.observer isHalt) code)
      (.start tape (world, s)) k = some (m.pair s') by
    obtain ⟨s', hs'⟩ := hturns
    exact ⟨s', instructionAt_eq_some.mpr ⟨hcells, hs', hx⟩⟩
  clear h hx
  -- the plain run leads: where it takes a turn, a call without an error lets the stepped run follow
  induction k generalizing m with
  | zero =>
      cases hafter
      exact ⟨s, rfl⟩
  | succ k ih =>
      obtain ⟨m₁, hm₁, hnext⟩ := after_succ_eq_some.mp hafter
      obtain ⟨s₁, hs₁⟩ := ih (fun j hj => hquiet j (Nat.lt_succ_of_lt hj)) hm₁
      obtain ⟨x, hx, -⟩ := Machine.next_eq_ok hnext
      have hat : observedAt (channel.beside σ) (fn.observer isHalt) code tape (world, s) k =
          some (m₁.pair s₁, x) := instructionAt_eq_some.mpr ⟨hcells, hs₁, hx⟩
      rcases hfn : fn (m₁.snapshot x) m₁.world s₁ with ⟨_ | e, s'⟩
      · refine ⟨s', after_succ_eq_some.mpr ⟨_, hs₁, ?_⟩⟩
        rw [Machine.turn_pair_of_none hx hfn, hnext]
      · refine absurd ?_ (hquiet k (Nat.lt_succ_self k) (m₁.snapshot x) e)
        rw [callAt_of_observedAt hat]
        exact congrArg some (Prod.ext rfl (congrArg Prod.fst hfn))

/-! ## Results -/

/-- Nothing that a stepped run shows from some machine on is answered with an error. -/
def Callback.Quiet (isHalt : ε → Bool) (fn : Callback ω σ ε) (channel : Channel ω) (code : Code)
    (m : Machine (ω × σ)) : Prop :=
  ∀ k m' x, after (Machine.turn (channel.beside σ) (fn.observer isHalt) code) m k = some m' →
    code[m'.counter]? = some x → (fn (m'.snapshot x) m'.world.1 m'.world.2).1 = none

/-- A stepped run whose callback answers with no error ends like the plain run, with the same
bound. -/
theorem watch_pair_of_quiet (hquiet : fn.Quiet isHalt channel code (m.pair s)) (fuel : Nat) :
    Option.Rel (fun a b => a.1 = Ending.ofResult b.1 ∧ ∃ s', a.2 = b.2.pair s')
      ((m.pair s).watch (channel.beside σ) (fn.observer isHalt) code fuel)
      (m.run channel code fuel) := by
  refine (Machine.drives_watch (channel.beside σ) (fn.observer isHalt) code).lockstep
    (Machine.drives_run channel code)
    (R := fun a b => fn.Quiet isHalt channel code a ∧ ∃ s', a = b.pair s') ?_ ?_
    ⟨hquiet, s, rfl⟩ fuel
  -- quietness is part of the relation: what is shown from a machine on includes all later calls
  · rintro _ m ⟨hquiet, s, rfl⟩
    cases hx : code[m.counter]? with
    | none =>
        have hend : code[(m.pair s).counter]? = none := hx
        rw [Machine.turn_of_none hend, Machine.next_of_none hx]
        exact .error ⟨rfl, s, rfl⟩
    | some x =>
        have hanswer : (fn (m.snapshot x) m.world s).1 = none := hquiet 0 (m.pair s) x rfl hx
        rcases hfn : fn (m.snapshot x) m.world s with ⟨answer, s'⟩
        rw [hfn] at hanswer
        cases hanswer
        have hturn : (m.pair s).turn (channel.beside σ) (fn.observer isHalt) code = _ :=
          Machine.turn_pair_of_none hx hfn
        rw [hturn]
        rcases hnext : m.next channel code with ⟨r, m'⟩ | m'
        · exact .error ⟨rfl, s', rfl⟩
        · refine .ok ⟨fun k m₁ y hafter hy => ?_, s', rfl⟩
          rw [hnext] at hturn
          exact hquiet (k + 1) m₁ y (by rw [after_succ_of_ok hturn, hafter]) hy
  -- with no turn left both runs still see that they have left the code
  · rintro _ m ⟨-, s, rfl⟩
    cases hx : code[m.counter]? with
    | none =>
        have hend : code[(m.pair s).counter]? = none := hx
        rw [Machine.watch_of_none hend, Machine.run_of_none hx]
        exact .some ⟨rfl, s, rfl⟩
    | some x =>
        have hshown : code[(m.pair s).counter]? = some x := hx
        rw [Machine.watch_zero hshown, Machine.run_zero hx]
        exact .none

/-- A stepped run none of whose calls is answered with an error ends like the plain run, with the
same bound. -/
theorem observe_of_quiet
    (hquiet : ∀ k seen e, fn.callAt isHalt channel code tape world s k ≠ some (seen, some e))
    (fuel : Nat) :
    Option.Rel (fun a b => a.1 = Ending.ofResult b.1 ∧ ∃ s', a.2 = b.2.pair s')
      (observe (channel.beside σ) (fn.observer isHalt) code fuel tape (world, s))
      (execute channel code fuel tape world) := by
  unfold observe execute
  cases hcells : lacksCells code tape with
  | true => exact .some ⟨rfl, s, rfl⟩
  | false =>
      refine watch_pair_of_quiet (m := .start tape world) (s := s) ?_ fuel
      intro k m x hafter hx
      have hat : observedAt (channel.beside σ) (fn.observer isHalt) code tape (world, s) k =
          some (m, x) := instructionAt_eq_some.mpr ⟨hcells, hafter, hx⟩
      cases hanswer : (fn (m.snapshot x) m.world.1 m.world.2).1 with
      | none => rfl
      | some e =>
          refine absurd ?_ (hquiet k (m.snapshot x) e)
          rw [callAt_of_observedAt hat, hanswer]

/-- A call that is answered with an error ends a stepped run, and the machine is that of the plain
run before the same instruction. -/
theorem observe_of_error {seen : Snapshot} {e : ε}
    (h : fn.callAt isHalt channel code tape world s k = some (seen, some e)) :
    ∃ m x s', executedAt channel code tape world k = some (m, x) ∧
      ∀ fuel, k < fuel →
        observe (channel.beside σ) (fn.observer isHalt) code fuel tape (world, s) =
          some (.ofError isHalt e, m.pair s') := by
  obtain ⟨m, x, s₁, s₂, hexec, hat, -, hfn⟩ := callAt_eq_some h
  obtain ⟨hcells, hafter, hx⟩ := instructionAt_eq_some.mp hat
  have hlast : (m.pair s₁).turn (channel.beside σ) (fn.observer isHalt) code = _ :=
    Machine.turn_pair_of_some hx hfn
  refine ⟨m, x, s₂, hexec, fun fuel hfuel => ?_⟩
  rw [observe, hcells, if_neg Bool.false_ne_true]
  exact (Machine.drives_watch _ _ code).eq_some_of_after hafter hlast hfuel

end Programs

/-- **Stepping simulates executing.** Call number `k` of a stepped run shows instruction number `k`
of the plain run on the same streams, with its index, trace line, operation, position, data pointer
and current cell; every instruction of the plain run is shown unless an earlier call was answered
with an error. If no call is answered with an error, both runs end or neither does,
with the same result, tape and streams. The first error ends the stepped run on the tape and the
streams that the plain run has before this instruction; a request to halt is no error of the run,
and any other error is returned. Without a cell for the program nothing is called, and both runs
fail alike. -/
theorem stepping_simulates_executing (channel : Channel ω) (isHalt : ε → Bool)
    (fn : Callback ω σ ε) (code : Code) (tape : Tape) (world : ω) (s : σ) :
    (∀ k seen answer, fn.callAt isHalt channel code tape world s k = some (seen, answer) →
      ∃ m x, executedAt channel code tape world k = some (m, x) ∧
        seen.index = m.counter ∧ seen.line = x.line ∧ seen.op = x.op ∧
        seen.position = x.position ∧ seen.pointer = m.pointer ∧
        m.tape[m.pointer]? = some seen.cell) ∧
    (∀ k m x, executedAt channel code tape world k = some (m, x) →
      (∀ j < k, ∀ seen e, fn.callAt isHalt channel code tape world s j ≠ some (seen, some e)) →
      ∃ answer, fn.callAt isHalt channel code tape world s k = some (m.snapshot x, answer)) ∧
    ((∀ k seen e, fn.callAt isHalt channel code tape world s k ≠ some (seen, some e)) →
      ∀ fuel,
        (execute channel code fuel tape world = none →
          observe (channel.beside σ) (fn.observer isHalt) code fuel tape (world, s) = none) ∧
        ∀ r m, execute channel code fuel tape world = some (r, m) →
          ∃ ending s', observe (channel.beside σ) (fn.observer isHalt) code fuel tape (world, s) =
            some (ending, m.pair s') ∧ ending.result = r.mapError .inl) ∧
    (∀ k seen e, fn.callAt isHalt channel code tape world s k = some (seen, some e) →
      ∃ m x, executedAt channel code tape world k = some (m, x) ∧
        ∃ ending s', ending.result = (if isHalt e then .ok () else .error (.inr e)) ∧
          ∀ fuel, k < fuel →
            observe (channel.beside σ) (fn.observer isHalt) code fuel tape (world, s) =
              some (ending, m.pair s')) ∧
    (code ≠ #[] → tape = #[] →
      (∀ k, fn.callAt isHalt channel code tape world s k = none) ∧
      ∀ fuel,
        observe (channel.beside σ) (fn.observer isHalt) code fuel tape (world, s) =
          some (.failed (.outOfRange 0 0 0), .start tape (world, s)) ∧
        execute channel code fuel tape world =
          some (.error (.outOfRange 0 0 0), .start tape world)) := by
  refine ⟨?_, ?_, ?_, ?_, ?_⟩
  · intro k seen answer h
    obtain ⟨m, x, -, -, hexec, -, rfl, -⟩ := callAt_eq_some h
    exact ⟨m, x, hexec, rfl, rfl, rfl, rfl, rfl, (onTape_of_executedAt hexec).getElem?_pointer⟩
  · intro k m x hexec hquiet
    obtain ⟨s', hat⟩ := exists_observedAt_of_executedAt hexec hquiet
    exact ⟨_, callAt_of_observedAt hat⟩
  · intro hquiet fuel
    have hrel := observe_of_quiet hquiet fuel
    generalize observe (channel.beside σ) (fn.observer isHalt) code fuel tape (world, s) = a,
      execute channel code fuel tape world = b at hrel
    cases hrel with
    | none => exact ⟨fun _ => rfl, by rintro _ _ ⟨⟩⟩
    | some hsame =>
        obtain ⟨hending, s', hs'⟩ := hsame
        refine ⟨by rintro ⟨⟩, ?_⟩
        rintro r m ⟨⟩
        exact ⟨_, s', congrArg some (Prod.ext hending hs'), Ending.result_ofResult r⟩
  · intro k seen e h
    obtain ⟨m, x, s', hexec, hends⟩ := observe_of_error h
    exact ⟨m, x, hexec, _, s', Ending.result_ofError isHalt e, hends⟩
  · intro hcode htape
    have hcells : lacksCells code tape = true := by simp [lacksCells, hcode, htape]
    refine ⟨fun k => ?_, fun fuel => ⟨?_, ?_⟩⟩
    · rw [Callback.callAt, observedAt, instructionAt, if_pos hcells]
      rfl
    · rw [observe, if_pos hcells, noCells]
    · rw [execute, if_pos hcells, noCells]

/-- A loop that never ends is stopped at the third call, by a request to halt or by an error. -/
theorem stepping_simulates_executing_of_endless_loop :
    ∃ (code : Code) (streams : MemoryStreams) (fn : Callback MemoryStreams Nat Bool),
      code = #[{ op := some .increment }, { op := some .loopStart, target := 3 },
        { op := some .loopEnd, target := 1 }] ∧
      (∀ seen world calls,
        fn seen world calls = (if calls = 2 then some true else none, calls + 1)) ∧
      ∀ isHalt : Bool → Bool,
        ∃ m x, executedAt MemoryStreams.channel code #[0] streams 2 = some (m, x) ∧
          ∃ ending calls,
            ending.result = (if isHalt true then .ok () else .error (.inr true)) ∧
            ∀ fuel, 2 < fuel →
              observe (MemoryStreams.channel.beside Nat) (fn.observer isHalt) code fuel #[0]
                (streams, 0) = some (ending, m.pair calls) := by
  refine ⟨_, { reader := .ofBytes [], writer := { capacity := 0 } },
    fun _ _ calls => (if calls = 2 then some true else none, calls + 1), rfl, fun _ _ _ => rfl, ?_⟩
  intro isHalt
  obtain ⟨-, -, -, hstops, -⟩ :=
    stepping_simulates_executing MemoryStreams.channel isHalt _ _ #[0] _ 0
  exact hstops 2 _ true rfl

end Brainfuck
