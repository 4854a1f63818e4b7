import Brainfuck.Proofs.Watching

/-!
# Visibility

A watcher sees the sink of a session before every instruction. On a sink that takes every byte,
nothing that the program has written is held back at that moment, nor when the run ends.

## Main Definitions

* `Machine.writes`, `outputBefore` — what an instruction writes, and what a run has written before
  an instruction
* `Console.Shows` — the bytes that a console shows once it has delivered its output
* `Session.callAt` — what a watcher sees at a call, by the number of the call
* `Session.Proceeds`, `Session.EndsAt` — the calls that let a run go on, and why a run ends

## Main Results

* `Machine.shows_of_step`, `Machine.shows_of_step_error` — one instruction
* `shows_of_after` — any number of instructions
* `Session.callAt_eq_some_iff` — what a watcher sees, in terms of the plain run
* `Session.exists_endsAt` — how a watched run ends
* `stepped_output_is_visible` — the sink at every call and at the end
-/

namespace Brainfuck

/-! ## One instruction -/

/-- The bytes that an instruction writes. -/
def Machine.writes {ω : Type} (m : Machine ω) (x : Instruction) : Bytes :=
  if x.op = some .output then [m.cell.toUInt32.toUInt8] else []

/-- A console that takes every byte, and that shows `bytes` once it has delivered its output. -/
structure Console.Shows (bytes : Bytes) (c : Console) : Prop where
  unlimited : c.Unlimited
  muted_eq : c.writer.muted = false
  received_eq : c.settled.sink.received.toList = bytes

namespace Console.Shows

variable {bytes : Bytes} {c c' : Console}

theorem written (hsink : c.Unlimited) (hmuted : c.writer.muted = false) :
    c.Shows c.written.toList := by
  refine ⟨hsink, hmuted, ?_⟩
  simp [settled, hmuted, Console.written]

/-- What is shown is seen from the console after a delivery. -/
theorem of_settled_eq (h : Shows bytes c) (hsink : c'.Unlimited)
    (hsettled : c.settled = c'.settled) : Shows bytes c' := by
  refine ⟨hsink, ?_, ?_⟩
  · show c'.settled.writer.muted = false
    rw [← hsettled]
    exact h.muted_eq
  · rw [← hsettled, h.received_eq]

theorem get (h : Shows bytes c) : Shows bytes (channel.get c).2 := by
  obtain ⟨c₁, hget, hsink, hsettled⟩ := h.unlimited.get
  have hanswer : (channel.get c).2 = c₁ := congrArg Prod.snd hget
  rw [hanswer]
  refine ⟨hsink, ?_, ?_⟩
  · show c₁.settled.writer.muted = false
    rw [hsettled]
    exact h.muted_eq
  · rw [hsettled]
    exact h.received_eq

/-- A byte that is taken is shown, and a byte that is refused is not. -/
theorem put (h : Shows bytes c) (b : UInt8) :
    ((channel.put b c).1 = .ok () ∧ Shows (bytes ++ [b]) (channel.put b c).2) ∨
      ∃ e, (channel.put b c).1 = .error e ∧ Shows bytes (channel.put b c).2 := by
  cases hclosed : c.writer.closed with
  | true =>
      have hanswer : channel.put b c = (.error .writerClosed, c) :=
        Unlimited.put_of_closed hclosed b
      rw [hanswer]
      exact .inr ⟨.writerClosed, rfl, h⟩
  | false =>
      obtain ⟨c₁, hput, hsink, hsettled⟩ := h.unlimited.put_of_open hclosed b
      have hanswer : channel.put b c = (.ok (), c₁) := hput
      rw [hanswer]
      refine .inl ⟨rfl, hsink, ?_, ?_⟩
      · show c₁.settled.writer.muted = false
        rw [hsettled]
        exact h.muted_eq
      · rw [hsettled, ← h.received_eq]
        simp [Console.settled, push, h.muted_eq]

end Console.Shows

namespace Machine

variable {bytes : Bytes} {m m' : Machine Console} {x : Instruction}

/-- Only an output and an input have to do with the streams. -/
theorem step_world {ω : Type} (channel : Channel ω) (x : Instruction) (m : Machine ω) :
    (x.op = some .output ∧ m.step channel x = m.output channel) ∨
      (x.op = some .input ∧ m.step channel x = m.input channel) ∨
      (x.op ≠ some .output ∧ (m.step channel x).2.world = m.world) := by
  have hjump (target : Int) : (m.jump target).2.world = m.world := by
    obtain ⟨counter, heq⟩ | ⟨-, heq⟩ := m.jump_cases target
    · rw [heq]
    · rw [heq]
  unfold step
  rcases hop : x.op with _ | c
  · exact .inr (.inr ⟨nofun, rfl⟩)
  cases c with
  | output => exact .inl ⟨rfl, rfl⟩
  | input => exact .inr (.inl ⟨rfl, rfl⟩)
  | moveForward =>
      refine .inr (.inr ⟨nofun, ?_⟩)
      dsimp only
      split
      · rfl
      · rfl
  | moveBackward =>
      refine .inr (.inr ⟨nofun, ?_⟩)
      dsimp only
      split
      · rfl
      · rfl
  | increment => exact .inr (.inr ⟨nofun, rfl⟩)
  | decrement => exact .inr (.inr ⟨nofun, rfl⟩)
  | loopStart =>
      refine .inr (.inr ⟨nofun, ?_⟩)
      dsimp only
      split
      · exact hjump _
      · rfl
  | loopEnd => exact .inr (.inr ⟨nofun, hjump _⟩)

/-- What an instruction leaves to be shown: the byte that it writes, if it does not fail. -/
theorem shows_step (h : m.world.Shows bytes) (x : Instruction) :
    ((m.step Console.channel x).1 = .ok () ∧
        Console.Shows (bytes ++ m.writes x) (m.step Console.channel x).2.world) ∨
      ∃ e, (m.step Console.channel x).1 = .error e ∧
        Console.Shows bytes (m.step Console.channel x).2.world := by
  obtain ⟨hop, hstep⟩ | ⟨hop, hstep⟩ | ⟨hop, hworld⟩ := step_world Console.channel x m
  · rw [hstep, output_eq, writes, if_pos hop]
    have hput := h.put m.cell.toUInt32.toUInt8
    generalize Console.channel.put m.cell.toUInt32.toUInt8 m.world = answer at hput ⊢
    rcases answer with ⟨e | _, c⟩
    · obtain ⟨hok, -⟩ | ⟨-, -, hshows⟩ := hput
      · cases hok
      · exact .inr ⟨_, rfl, hshows⟩
    · obtain ⟨-, hshows⟩ | ⟨_, herror, -⟩ := hput
      · exact .inl ⟨rfl, hshows⟩
      · cases herror
  · have hwrites : m.writes x = [] := by
      rw [writes, hop]
      rfl
    rw [hstep, input_eq, hwrites, List.append_nil]
    have hget := h.get
    generalize Console.channel.get m.world = answer at hget ⊢
    rcases answer with ⟨e | b, c⟩
    · exact .inr ⟨_, rfl, hget⟩
    · exact .inl ⟨rfl, hget⟩
  · rw [hworld, writes, if_neg hop, List.append_nil]
    rcases (m.step Console.channel x).1 with e | _
    · exact .inr ⟨e, rfl, h⟩
    · exact .inl ⟨rfl, h⟩

theorem shows_of_step (h : m.world.Shows bytes) (hstep : m.step Console.channel x = (.ok (), m')) :
    m'.world.Shows (bytes ++ m.writes x) := by
  have hshows := shows_step h x
  rw [hstep] at hshows
  obtain ⟨-, hshows⟩ | ⟨_, herror, -⟩ := hshows
  · exact hshows
  · cases herror

theorem shows_of_step_error {e : RunError} (h : m.world.Shows bytes)
    (hstep : m.step Console.channel x = (.error e, m')) : m'.world.Shows bytes := by
  have hshows := shows_step h x
  rw [hstep] at hshows
  obtain ⟨hok, -⟩ | ⟨_, -, hshows⟩ := hshows
  · cases hok
  · exact hshows

end Machine

/-! ## Any number of instructions -/

/-- The bytes that the plain run writes before its instruction number `k`. -/
def outputBefore {ω : Type} (channel : Channel ω) (code : Code) (tape : Tape) (world : ω)
    (k : Nat) : Bytes :=
  (List.range k).flatMap fun j =>
    (executedAt channel code tape world j).elim [] fun (m, x) => m.writes x

section Programs

variable {bytes : Bytes} {code : Code} {tape : Tape} {console : Console} {k : Nat}
  {m : Machine Console}

theorem outputBefore_succ {ω : Type} {channel : Channel ω} {world : ω} {m : Machine ω}
    {x : Instruction} (h : executedAt channel code tape world k = some (m, x)) :
    outputBefore channel code tape world (k + 1) =
      outputBefore channel code tape world k ++ m.writes x := by
  simp [outputBefore, List.range_succ, h]

/-- The console of the plain run shows, behind what it has shown before, the bytes written so
far. -/
theorem shows_of_after (h : console.Shows bytes) (hcells : lacksCells code tape = false)
    (hafter : after (Machine.next Console.channel code) (.start tape console) k = some m) :
    m.world.Shows (bytes ++ outputBefore Console.channel code tape console k) := by
  induction k generalizing m with
  | zero =>
      cases hafter
      rw [outputBefore, List.range_zero, List.flatMap_nil, List.append_nil]
      exact h
  | succ k ih =>
      obtain ⟨m₁, hm₁, hnext⟩ := after_succ_eq_some.mp hafter
      obtain ⟨x, hx, hstep⟩ := Machine.next_eq_ok hnext
      have hexec : executedAt Console.channel code tape console k = some (m₁, x) :=
        instructionAt_eq_some.mpr ⟨hcells, hm₁, hx⟩
      rw [outputBefore_succ hexec, ← List.append_assoc]
      exact Machine.shows_of_step (ih hm₁) hstep

end Programs

/-! ## Calls and ends -/

namespace Session

variable {σ : Type} {s : Session} {code : Code} {watcher : Watcher σ} {log log' : σ} {k n : Nat}

/-- What the observer of a session shows its watcher, if it comes to that: it is what a watcher has
kept that keeps what it is shown. -/
def shownBy (seen : Snapshot) (console : Console) : Option (Snapshot × Sink) :=
  (observer (fun seen sink _ => (.proceed, some (seen, sink))) seen (console, none)).2.2

/-- Call number `k`, counted from zero, of a watched run: the snapshot, the sink and the state with
which the watcher is asked. -/
def callAt (s : Session) (code : Code) (watcher : Watcher σ) (log : σ) (k : Nat) :
    Option (Snapshot × Sink × σ) :=
  (observedAt (Console.channel.beside σ) (observer watcher) code s.tape (s.console, log) k).bind
    fun (m, x) => (shownBy (m.snapshot x) m.world.1).map fun (seen, sink) => (seen, sink, m.world.2)

/-- At call number `k` the watcher lets the run go on. -/
def Proceeds (s : Session) (code : Code) (watcher : Watcher σ) (log : σ) (k : Nat) : Prop :=
  ∃ seen sink log', s.callAt code watcher log k = some (seen, sink, log') ∧
    (watcher seen sink log').1 = .proceed

/-- Why a watched run ends at instruction number `n`, and its result. -/
inductive EndsAt (s : Session) (code : Code) (watcher : Watcher σ) (log : σ) (n : Nat) :
    Except SessionError Unit → Prop where
  /-- The run has no cell to begin with. -/
  | noCells : n = 0 → lacksCells code s.tape = true →
      EndsAt s code watcher log n (.error (.run Brainfuck.noCells))
  /-- There is no such instruction. -/
  | finished : lacksCells code s.tape = false →
      executedAt Console.channel code s.tape s.console n = none →
      EndsAt s code watcher log n (.ok ())
  /-- The watcher halts the run. -/
  | halted {seen : Snapshot} {sink : Sink} {log' : σ} :
      s.callAt code watcher log n = some (seen, sink, log') →
      (watcher seen sink log').1 = .halt → EndsAt s code watcher log n (.ok ())
  /-- The watcher fails. -/
  | interrupted {seen : Snapshot} {sink : Sink} {log' : σ} {cause : SessionError} :
      s.callAt code watcher log n = some (seen, sink, log') →
      (watcher seen sink log').1 = .fail cause → EndsAt s code watcher log n (.error cause)
  /-- The instruction fails. -/
  | failed {m m' : Machine Console} {x : Instruction} {e : RunError} :
      executedAt Console.channel code s.tape s.console n = some (m, x) →
      m.step Console.channel x = (.error e, m') →
      EndsAt s code watcher log n (.error (.run e))

theorem shownBy_of_unlimited {c : Console} (h : c.Unlimited) (seen : Snapshot) :
    shownBy seen c = some (seen, c.settled.sink) := by
  rw [shownBy, Machine.observer_of_unlimited h rfl]

/-- A call is an instruction of the plain run to which the watcher lets the run come, and the sink
is then that of the plain run with all output delivered. -/
theorem callAt_eq_some_iff (hsink : s.console.Unlimited) {seen : Snapshot} {sink : Sink} :
    s.callAt code watcher log k = some (seen, sink, log') ↔
      ∃ m x, executedAt Console.channel code s.tape s.console k = some (m, x) ∧
        watcherAt watcher code s.tape s.console log k = some log' ∧
        seen = m.snapshot x ∧ sink = m.world.settled.sink := by
  constructor
  · intro hcall
    obtain ⟨⟨m', x⟩, hat, hshown⟩ := Option.bind_eq_some_iff.mp hcall
    obtain ⟨hcells, hafter, hx⟩ := instructionAt_eq_some.mp hat
    obtain ⟨m, log₁, hm, hlog, c, hc, rfl⟩ := exists_after_of_watched hsink hcells hafter
    obtain ⟨shown, hshownBy, heq⟩ := Option.map_eq_some_iff.mp hshown
    have hsinks : shownBy (m.snapshot x) c = some (m.snapshot x, m.world.settled.sink) := by
      rw [shownBy_of_unlimited hc.unlimited', hc.settled_eq]
    cases hsinks.symm.trans hshownBy
    cases heq
    exact ⟨m, x, instructionAt_eq_some.mpr ⟨hcells, hm, hx⟩, hlog, rfl, rfl⟩
  · rintro ⟨m, x, hexec, hlog, rfl, rfl⟩
    obtain ⟨hcells, hm, hx⟩ := instructionAt_eq_some.mp hexec
    obtain ⟨_, hafter, c, hc, rfl⟩ := exists_watched_of_after hsink hm hlog
    have hat : observedAt (Console.channel.beside σ) (observer watcher) code s.tape
        (s.console, log) k = some ((m.onto c).pair log', x) :=
      instructionAt_eq_some.mpr ⟨hcells, hafter, hx⟩
    have hshown : shownBy (((m.onto c).pair log').snapshot x) ((m.onto c).pair log').world.1 =
        some (m.snapshot x, m.world.settled.sink) := by
      rw [hc.settled_eq]
      exact shownBy_of_unlimited hc.unlimited' _
    rw [callAt, hat, Option.bind_some]
    show (shownBy _ _).map _ = _
    rw [hshown]
    rfl

theorem proceeds_of_watcherAt (hsink : s.console.Unlimited)
    (hlog : watcherAt watcher code s.tape s.console log n = some log') :
    ∀ j < n, s.Proceeds code watcher log j := by
  induction n generalizing log' with
  | zero => exact fun j hj => absurd hj (Nat.not_lt_zero j)
  | succ n ih =>
      obtain ⟨log₁, m, x, hlog₁, hexec, hwatcher⟩ := watcherAt_succ_eq_some.mp hlog
      intro j hj
      rcases Nat.lt_succ_iff_lt_or_eq.mp hj with hlt | rfl
      · exact ih hlog₁ j hlt
      · exact ⟨_, _, log₁, (callAt_eq_some_iff hsink).mpr ⟨m, x, hexec, hlog₁, rfl, rfl⟩,
          by rw [hwatcher]⟩

theorem exists_watcherAt_of_proceeds (hsink : s.console.Unlimited)
    (hproceeds : ∀ j < n, s.Proceeds code watcher log j) :
    ∃ log', watcherAt watcher code s.tape s.console log n = some log' := by
  cases n with
  | zero => exact ⟨log, rfl⟩
  | succ n =>
      -- the last call before says that all others went well
      obtain ⟨_, _, log₁, hcall, hsignal⟩ := hproceeds n (Nat.lt_succ_self n)
      obtain ⟨m, x, hexec, hlog₁, rfl, rfl⟩ := (callAt_eq_some_iff hsink).mp hcall
      exact ⟨_, watcherAt_succ_eq_some.mpr
        ⟨log₁, m, x, hlog₁, hexec, Prod.ext hsignal rfl⟩⟩

/-- A watched run ends where the run or the watcher has a reason to, and its console shows all that
was written up to there. -/
theorem exists_endsAt {bytes : Bytes} (hshows : s.console.Shows bytes) {fuel : Nat}
    {ending : Ending SessionError} {m' : Machine (Console × σ)}
    (h : observe (Console.channel.beside σ) (observer watcher) code fuel s.tape (s.console, log) =
      some (ending, m')) :
    ∃ n, (∀ j < n, s.Proceeds code watcher log j) ∧
      s.EndsAt code watcher log n (resultOf ending) ∧
      m'.world.1.Shows (bytes ++ outputBefore Console.channel code s.tape s.console n) := by
  have hsink := hshows.unlimited
  unfold observe at h
  cases hcells : lacksCells code s.tape with
  | true =>
      rw [if_pos hcells] at h
      cases h
      refine ⟨0, fun j hj => absurd hj (Nat.not_lt_zero j), .noCells rfl hcells, ?_⟩
      rw [outputBefore, List.range_zero, List.flatMap_nil, List.append_nil]
      exact hshows
  | false =>
      rw [hcells, if_neg Bool.false_ne_true] at h
      obtain ⟨n, _, hafter, hlast⟩ := (Machine.drives_watch _ _ code).exists_after h
      obtain ⟨m, log₁, hm, hlog, c, hc, rfl⟩ := exists_after_of_watched hsink hcells hafter
      have hbefore := shows_of_after hshows hcells hm
      refine ⟨n, proceeds_of_watcherAt hsink hlog, ?_⟩
      obtain ⟨hx, rfl, rfl⟩ | ⟨x, signal, log₂, hx, hwatcher, hreason⟩ :=
        Machine.turn_watched_eq_error hc hlast
      · exact ⟨.finished hcells (executedAt_of_none hm hx),
          hbefore.of_settled_eq hc.unlimited' hc.settled_eq⟩
      have hexec : executedAt Console.channel code s.tape s.console n = some (m, x) :=
        instructionAt_eq_some.mpr ⟨hcells, hm, hx⟩
      obtain ⟨hends, rfl⟩ | ⟨e, m₁, hstep, rfl, c₁, hc₁, rfl⟩ := hreason
      · have hcall := (callAt_eq_some_iff hsink).mpr ⟨m, x, hexec, hlog, rfl, rfl⟩
        have hsignal := congrArg Prod.fst hwatcher
        have hsettled := hbefore.of_settled_eq hbefore.unlimited.settled
          m.world.settled_settled.symm
        cases hends with
        | halt => exact ⟨.halted hcall hsignal, hsettled⟩
        | fail cause => exact ⟨.interrupted hcall hsignal, hsettled⟩
      · have hafterwards := Machine.shows_of_step_error hbefore hstep
        exact ⟨.failed hexec hstep, hafterwards.of_settled_eq hc₁.unlimited' hc₁.settled_eq⟩

/-- The error of a run comes before that of the delivery. -/
theorem settle_fst_of_error (e : SessionError) (c : Console) :
    (settle (.error e) c).1 = .error e :=
  rfl

theorem settle_fst_of_flush {c : Console} {e : StreamError} (h : c.flush.1 = .error e) :
    (settle (.ok ()) c).1 = .error (.delivery e) := by
  unfold settle
  generalize c.flush = flushed at h
  obtain ⟨r, c'⟩ := flushed
  cases h
  rfl

end Session

/-- **A stepped run shows all output before every step.** On a sink that takes every byte, the
watcher is shown the instructions of the plain run, one after the other, for as long as it lets the
run go on, and at every call the sink holds exactly the bytes written by the instructions before,
behind what was written before the run. When the run ends, for whatever reason, the sink holds all
bytes written up to there. On any sink, an error of the run is returned whether or not the last
delivery fails, and an error of that delivery if there is no other. -/
theorem stepped_output_is_visible {σ : Type} (s : Session) (code : Code)
    (watcher : Session.Watcher σ) (log : σ) :
    let snapshot := snapshotAt Console.channel code s.tape s.console
    let output := outputBefore Console.channel code s.tape s.console
    (s.console.Unlimited → s.console.writer.muted = false →
      (∀ k seen sink log', s.callAt code watcher log k = some (seen, sink, log') →
        snapshot k = some seen ∧
          sink.received.toList = s.console.written.toList ++ output k) ∧
      (∀ k seen, snapshot k = some seen → (∀ j < k, s.Proceeds code watcher log j) →
        ∃ sink log', s.callAt code watcher log k = some (seen, sink, log')) ∧
      ∀ fuel result s' log', s.watch fuel code watcher log = some (result, s', log') →
        ∃ n, (∀ j < n, s.Proceeds code watcher log j) ∧ s.EndsAt code watcher log n result ∧
          s'.console.sink.received.toList = s.console.written.toList ++ output n) ∧
    ∀ fuel ending m,
      observe (Console.channel.beside σ) (Session.observer watcher) code fuel s.tape
        (s.console, log) = some (ending, m) →
      (∀ e, Session.resultOf ending = .error e →
        ∃ s' log', s.watch fuel code watcher log = some (.error e, s', log')) ∧
      ∀ e, Session.resultOf ending = .ok () → m.world.1.flush.1 = .error e →
        ∃ s' log', s.watch fuel code watcher log = some (.error (.delivery e), s', log') := by
  intro snapshot output
  refine ⟨fun hsink hmuted => ⟨?_, ?_, ?_⟩, ?_⟩
  · intro k seen sink log' hcall
    obtain ⟨m, x, hexec, -, rfl, rfl⟩ := (Session.callAt_eq_some_iff hsink).mp hcall
    obtain ⟨hcells, hm, -⟩ := instructionAt_eq_some.mp hexec
    have hshows := shows_of_after (.written hsink hmuted) hcells hm
    refine ⟨?_, hshows.received_eq⟩
    show snapshotAt Console.channel code s.tape s.console k = some (m.snapshot x)
    rw [snapshotAt, hexec, Option.map_some]
  · intro k seen hsnapshot hproceeds
    obtain ⟨⟨m, x⟩, hexec, rfl⟩ := Option.map_eq_some_iff.mp hsnapshot
    obtain ⟨log', hlog⟩ := Session.exists_watcherAt_of_proceeds hsink hproceeds
    exact ⟨_, log', (Session.callAt_eq_some_iff hsink).mpr ⟨m, x, hexec, hlog, rfl, rfl⟩⟩
  · intro fuel result s' log' hwatch
    rw [Session.watch_eq] at hwatch
    obtain ⟨⟨ending, m⟩, hobserve, heq⟩ := Option.map_eq_some_iff.mp hwatch
    obtain ⟨n, hproceeds, hends, hshows⟩ := Session.exists_endsAt (.written hsink hmuted) hobserve
    have hsettle := Session.settle_of_unlimited hshows.unlimited (Session.resultOf ending)
    dsimp only at heq
    rw [hsettle] at heq
    cases heq
    exact ⟨n, hproceeds, hends, hshows.received_eq⟩
  · intro fuel ending m hobserve
    obtain ⟨s', hwatch⟩ : ∃ s', s.watch fuel code watcher log =
        some ((Session.settle (Session.resultOf ending) m.world.1).1, s', m.world.2) := by
      rw [Session.watch_eq, hobserve]
      exact ⟨_, rfl⟩
    refine ⟨fun e herror => ⟨s', m.world.2, ?_⟩, fun e hok hflush => ⟨s', m.world.2, ?_⟩⟩
    · rw [hwatch, herror, Session.settle_fst_of_error]
    · rw [hwatch, hok, Session.settle_fst_of_flush hflush]

/-- A program that writes a byte and then leaves its tape of one cell, behind a byte that was
written before it and one that has already arrived. -/
theorem stepped_output_is_visible_before_failure :
    let code : Code :=
      #[{ op := some .increment }, { op := some .output }, { op := some .moveForward }]
    let s : Session :=
      { settings := {}, tape := #[0],
        console :=
          { feed := { bytes := [] }, writer := { pending := #[8] }, sink := { received := #[9] } },
        store := .absent, host := {} }
    let watcher : Session.Watcher Nat := fun _ _ calls => (.proceed, calls + 1)
    let failure : SessionError := .run (.outOfRange 1 1 2)
    s.console.Unlimited ∧ s.console.writer.muted = false ∧
      (∃ seen sink, s.callAt code watcher 0 2 = some (seen, sink, 2) ∧
        sink.received.toList = [9, 8, 1]) ∧
      ∃ s' n, s.watch 3 code watcher 0 = some (.error failure, s', 3) ∧
        s.EndsAt code watcher 0 n (.error failure) ∧
        s'.console.sink.received.toList =
          [9, 8] ++ outputBefore Console.channel code s.tape s.console n := by
  intro code s watcher failure
  have hsink : s.console.Unlimited := ⟨rfl, rfl⟩
  obtain ⟨hvisible, -⟩ := stepped_output_is_visible s code watcher 0
  obtain ⟨hcalls, -, hends⟩ := hvisible hsink rfl
  obtain ⟨n, -, hreason, hreceived⟩ := hends 3 _ _ _ rfl
  exact ⟨hsink, rfl, ⟨_, _, rfl, (hcalls 2 _ _ 2 rfl).2⟩, _, n, rfl, hreason, hreceived⟩

end Brainfuck
