import Brainfuck.Proofs.Streams
import Brainfuck.Proofs.Tables
import Brainfuck.Proofs.Tapes
import Brainfuck.Session.Bench

/-!
# Benchmarks

All iterations of a benchmark share one tape and one pair of streams. Clearing them undoes whatever
an iteration has done, so every iteration is the first one again: if the first one succeeds they all
do, with the same output, and a benchmark fails in its first iteration or not at all.

## Main Definitions

* `MemoryStreams.Stems` — streams that some streams may become in a run
* `executions` — how each iteration of a benchmark ends
* `judged` — the result of a benchmark whose iterations ended so

## Main Results

* `MemoryStreams.keeps_stems` — what memory streams keep
* `cleared_of_execute` — clearing undoes a run
* `iterate_eq_judged` — the result of a benchmark is judged by its executions
* `executions_eq`, `iterate_eq` — the executions and the result of a benchmark by the first one
* `bench_repeats_first_run` — benchmarks of sessions
-/

namespace Brainfuck

/-! ## Streams in memory -/

namespace MemoryStreams

/-- Streams that have the text and the room of `start`, and no more content than room. -/
structure Stems (start w : MemoryStreams) : Prop where
  cleared_eq : w.cleared = start
  size_le : w.writer.content.size ≤ w.writer.capacity

variable {start w : MemoryStreams}

theorem Stems.get (h : Stems start w) : Stems start (channel.get w).2 := by
  obtain ⟨reader, writer⟩ := w
  refine ⟨Eq.trans ?_ h.cleared_eq, h.size_le⟩
  simp only [channel, MemoryReader.get]
  split <;> rfl

theorem Stems.put (h : Stems start w) (b : UInt8) : Stems start (channel.put b w).2 := by
  obtain ⟨reader, capacity, content⟩ := w
  simp only [channel, MemoryWriter.put]
  split
  next hroom =>
    refine ⟨h.cleared_eq, ?_⟩
    show (content.push b).size ≤ capacity
    rw [Array.size_push]
    exact hroom
  next => exact h

/-- Reading and writing in memory moves a reader and fills a writer, and that is all. -/
theorem keeps_stems (start : MemoryStreams) : channel.Keeps (Stems start) fun _ => True where
  get := Stems.get
  put := fun b h => h.put b
  get_error := fun _ _ => trivial
  put_error := fun _ _ _ => trivial

theorem stems_fresh (capacity : Nat) : Stems (freshStreams capacity) (freshStreams capacity) :=
  ⟨rfl, Nat.zero_le _⟩

end MemoryStreams

/-! ## Iterations -/

variable {code : Code} {fuel size capacity : Nat} {m : Machine MemoryStreams}

/-- Clearing the tape and the streams undoes a run. -/
theorem cleared_of_execute {r : Except RunError Unit}
    (hrun : execute MemoryStreams.channel code fuel (Tape.zero size) (freshStreams capacity) =
      some (r, m)) :
    Tape.zero m.tape.size = Tape.zero size ∧ m.world.cleared = freshStreams capacity ∧
      m.world.writer.content.size ≤ capacity := by
  have hsize : m.tape.size = size := (execute_size hrun).trans Array.size_replicate
  have hstems := (execute_kept (MemoryStreams.keeps_stems _) (MemoryStreams.stems_fresh capacity)
    hrun).world
  have hcapacity : m.world.writer.capacity = capacity :=
    congrArg (·.writer.capacity) hstems.cleared_eq
  exact ⟨congrArg Tape.zero hsize, hstems.cleared_eq, hcapacity ▸ hstems.size_le⟩

/-- How each iteration ends and what it leaves, in the order in which they are executed. -/
def executions (code : Code) (fuel : Nat) (first : Option (Array UInt8)) (tape : Tape)
    (streams : MemoryStreams) :
    Nat → Option (List (Except RunError Unit × Machine MemoryStreams))
  | 0 => some []
  | remaining + 1 =>
    match execute MemoryStreams.channel code fuel tape streams with
    | none => none
    | some (.error e, m) => some [(.error e, m)]
    | some (.ok (), m) =>
      if first.all (· == m.world.writer.content) then
        (executions code fuel (some (first.getD m.world.writer.content)) (Tape.zero m.tape.size)
          m.world.cleared remaining).map ((.ok (), m) :: ·)
      else some [(.ok (), m)]

/-- What iterations that end so give, counted from `index`. -/
def judged (first : Option (Array UInt8)) (index : Nat) :
    List (Except RunError Unit × Machine MemoryStreams) → Except BenchError (Array UInt8)
  | [] => .ok (first.getD #[])
  | (.error e, _) :: _ => .error (.run index e)
  | (.ok (), m) :: rest =>
    if first.all (· == m.world.writer.content) then
      judged (some (first.getD m.world.writer.content)) (index + 1) rest
    else .error (.output index)

/-- The result of a benchmark is judged by its executions. -/
theorem iterate_eq_judged (first : Option (Array UInt8)) (index : Nat) (tape : Tape)
    (streams : MemoryStreams) (remaining : Nat) :
    iterate code fuel first index tape streams remaining =
      (executions code fuel first tape streams remaining).map (judged first index) := by
  induction remaining generalizing first index tape streams with
  | zero => rfl
  | succ remaining ih =>
      rw [iterate, executions]
      rcases execute MemoryStreams.channel code fuel tape streams with _ | ⟨e | _, m⟩
      · rfl
      · rfl
      · by_cases hfirst : first.all (· == m.world.writer.content)
        · have hjudged : judged first index ∘ ((.ok (), m) :: ·) =
              judged (some (first.getD m.world.writer.content)) (index + 1) := by
            funext rest
            rw [Function.comp_apply, judged, if_pos hfirst]
          simp only [if_pos hfirst, ih, Option.map_map, hjudged]
        · simp only [if_neg hfirst, Option.map_some, judged]

/-- After a first iteration that succeeds, all others do the same again. -/
theorem executions_of_ok
    (hrun : execute MemoryStreams.channel code fuel (Tape.zero size) (freshStreams capacity) =
      some (.ok (), m)) (remaining : Nat) :
    executions code fuel (some m.world.writer.content) (Tape.zero size) (freshStreams capacity)
      remaining = some (List.replicate remaining (.ok (), m)) := by
  obtain ⟨htape, hstreams, -⟩ := cleared_of_execute hrun
  induction remaining with
  | zero => rfl
  | succ remaining ih =>
      have hsame : (some m.world.writer.content).all (· == m.world.writer.content) = true := by simp
      rw [executions, hrun]
      dsimp only
      rw [if_pos hsame, htape, hstreams, Option.getD_some, ih, Option.map_some,
        List.replicate_succ]

/-- An execution that is repeated, unless it fails. -/
def repeated (n : Nat) (ended : Except RunError Unit × Machine MemoryStreams) :
    List (Except RunError Unit × Machine MemoryStreams) :=
  match ended.1 with
  | .ok () => List.replicate n ended
  | .error _ => [ended]

/-- The executions of a benchmark by the first one. -/
theorem executions_eq (code : Code) (fuel size capacity : Nat) {n : Nat} (hn : 0 < n) :
    executions code fuel none (Tape.zero size) (freshStreams capacity) n =
      (execute MemoryStreams.channel code fuel (Tape.zero size) (freshStreams capacity)).map
        (repeated n) := by
  obtain ⟨remaining, rfl⟩ := Nat.exists_eq_succ_of_ne_zero (Nat.ne_of_gt hn)
  rw [executions]
  rcases hrun : execute MemoryStreams.channel code fuel (Tape.zero size) (freshStreams capacity)
    with _ | ⟨e | _, m⟩
  · rfl
  · rfl
  · obtain ⟨htape, hstreams, -⟩ := cleared_of_execute hrun
    dsimp only
    rw [if_pos Option.all_none, htape, hstreams, Option.getD_none, executions_of_ok hrun remaining]
    rfl

/-- Iterations that all leave the same output give it. -/
theorem judged_replicate (index : Nat) {n : Nat} (hn : 0 < n) :
    judged none index (List.replicate n (.ok (), m)) = .ok m.world.writer.content := by
  have hsame (n index : Nat) : judged (some m.world.writer.content) index
      (List.replicate n (.ok (), m)) = .ok m.world.writer.content := by
    induction n generalizing index with
    | zero => rfl
    | succ n ih =>
        rw [List.replicate_succ, judged, if_pos (by simp)]
        exact ih (index + 1)
  obtain ⟨remaining, rfl⟩ := Nat.exists_eq_succ_of_ne_zero (Nat.ne_of_gt hn)
  rw [List.replicate_succ, judged, if_pos Option.all_none]
  exact hsame remaining (index + 1)

/-- A benchmark has the result of its first iteration. -/
theorem iterate_eq (code : Code) (fuel size capacity : Nat) {n : Nat} (hn : 0 < n) :
    iterate code fuel none 0 (Tape.zero size) (freshStreams capacity) n =
      (execute MemoryStreams.channel code fuel (Tape.zero size) (freshStreams capacity)).map
        fun ended => (ended.1.mapError (.run 0)).map fun _ => ended.2.world.writer.content := by
  rw [iterate_eq_judged, executions_eq code fuel size capacity hn]
  rcases execute MemoryStreams.channel code fuel (Tape.zero size) (freshStreams capacity)
    with _ | ⟨e | _, m⟩
  · rfl
  · rfl
  · exact congrArg some (judged_replicate 0 hn)

/-! ## Sessions -/

theorem Run.stamped_self {run : Run} {now : Timestamp} (h : run.time = now) :
    run.stamped now = run := by
  subst h
  rw [Run.stamped]
  split <;> rfl

theorem Session.recordRun_of_shelf {s : Session} {shelf : Shelf}
    (hstore : s.store = .present (.shelf shelf)) (run : Run) :
    s.recordRun run =
      (.ok (), { s with store := .present (.shelf (shelf.record run s.host.now)) }) := by
  rw [recordRun, hstore]
  rfl

/-- A run with the time of the clock is filed as it is, after those of the same name. -/
theorem Shelf.filed_record_of_now {run : Run} {now : Timestamp} (h : run.time = now)
    (shelf : Shelf) :
    (shelf.record run now).filed run.name = shelf.filed run.name ++ [run] ∧
      ∀ other, other ≠ run.name → (shelf.record run now).filed other = shelf.filed other := by
  constructor
  · rw [filed_record, if_pos rfl, Run.stamped_self h]
  · intro other hother
    rw [filed_record, if_neg (Ne.symm hother)]

/-- A writer that can be had has room for a number of bytes that a word can count. -/
theorem MemoryWriter.eq_of_ofCapacity {c : Int} {w : MemoryWriter} (h : ofCapacity c = .ok w) :
    checkLength 1 c = .ok w.capacity ∧ w = { capacity := w.capacity } ∧
      w.capacity ≤ maxBytes := by
  rw [ofCapacity] at h
  cases hlength : checkLength 1 c with
  | error f =>
      rw [hlength] at h
      cases h
  | ok room =>
      rw [hlength] at h
      cases h
      refine ⟨rfl, rfl, ?_⟩
      rw [checkLength] at hlength
      split at hlength
      next hc =>
        cases hlength
        simp only [Bool.and_eq_true, decide_eq_true_eq] at hc
        show c.toNat ≤ maxBytes
        omega
      next => cases hlength

variable {s : Session} {p : Program} {name source : Bytes} {n : Int64} {c : Int} {w : MemoryWriter}

/-- A benchmark of a session by the run of a single iteration. -/
theorem Session.bench_eq (hcompile : (s.compile source).1 = .ok p) (hn : 1 ≤ n.toInt)
    (hw : MemoryWriter.ofCapacity c = .ok w) (name : Bytes) (fuel : Nat) :
    s.bench fuel name source n.toInt c =
      match Brainfuck.execute MemoryStreams.channel p.code fuel (Tape.zero s.tape.size)
        (freshStreams w.capacity) with
      | none => none
      | some (.error e, _) => some (.error (.bench name (.run 0 e)), (s.compile source).2)
      | some (.ok (), m) =>
        let run : Run :=
          { name, iterations := n, elapsed := (s.compile source).2.host.elapsed,
            output := Int64.ofNat m.world.writer.content.size,
            time := (s.compile source).2.host.now }
        match (s.compile source).2.recordRun run with
        | (.ok (), t) => some (.ok run, t)
        | (.error e, t) => some (.error (.bench name (.record e)), t) := by
  have hpos : 0 < n.toInt.toNat := by omega
  have hsession : s.compile source = (.ok p, (s.compile source).2) := by rw [← hcompile]
  have htape : (s.compile source).2.tape = s.tape := rfl
  rw [bench, if_neg (by omega), hsession]
  dsimp only
  rw [(MemoryWriter.eq_of_ofCapacity hw).1]
  dsimp only
  rw [iterate_eq _ _ _ _ hpos, htape, Int64.ofInt_toInt]
  rcases Brainfuck.execute MemoryStreams.channel p.code fuel (Tape.zero s.tape.size)
    (freshStreams w.capacity) with _ | ⟨e | _, m⟩ <;> rfl

/-- **A benchmark repeats its first run.** Take a session with its programs in memory, a source that
compiles and a number of iterations. If the program ends on a tape of zeros, without input and with
a writer of the given room, then so does the benchmark. Where the program succeeds, the benchmark
executes it as often as asked, with that same end each time, and records one run with that number of
iterations and the length of the output; where it fails, the benchmark executes it once, fails in
that first iteration, for the same reason, and records nothing. It fails in no other way. It leaves
the tape, the console and the programs of the session as they were. -/
theorem bench_repeats_first_run {shelf : Shelf} (hstore : s.store = .present (.shelf shelf))
    (hcompile : (s.compile source).1 = .ok p) (hn : 1 ≤ n.toInt)
    (hw : MemoryWriter.ofCapacity c = .ok w) (name : Bytes) (fuel : Nat) :
    let first := execute MemoryStreams.channel p.code fuel (Tape.zero s.tape.size)
      { reader := .ofBytes [], writer := w }
    let executed := executions p.code fuel none (Tape.zero s.tape.size)
      { reader := .ofBytes [], writer := w } n.toInt.toNat
    let benched := s.bench fuel name source n.toInt c
    iterate p.code fuel none 0 (Tape.zero s.tape.size) { reader := .ofBytes [], writer := w }
      n.toInt.toNat = executed.map (judged none 0) ∧
    (first = none → benched = none) ∧
    (∀ m, first = some (.ok (), m) → executed = some (List.replicate n.toInt.toNat (.ok (), m)) ∧
      ∃ run t, benched = some (.ok run, t) ∧
      run.name = name ∧ run.iterations = n ∧
      run.output.toInt = m.world.writer.content.size ∧
      (∃ shelf', t.store = .present (.shelf shelf') ∧ shelf'.programs = shelf.programs ∧
        shelf'.filed name = shelf.filed name ++ [run] ∧
        ∀ other, other ≠ name → shelf'.filed other = shelf.filed other) ∧
      t.tape = s.tape ∧ t.console = s.console) ∧
    (∀ e m, first = some (.error e, m) → executed = some [(.error e, m)] ∧ ∃ t,
      benched = some (.error (.bench name (.run 0 e)), t) ∧
      t.store = s.store ∧ t.tape = s.tape ∧ t.console = s.console) ∧
    ∀ e t, benched = some (.error e, t) →
      ∃ cause m, first = some (.error cause, m) ∧ e = .bench name (.run 0 cause) := by
  obtain ⟨-, hwriter, hroom⟩ := MemoryWriter.eq_of_ofCapacity hw
  have hstreams : ({ reader := .ofBytes [], writer := w } : MemoryStreams) =
      freshStreams w.capacity := by rw [freshStreams, ← hwriter]
  have hbench := Session.bench_eq hcompile hn hw name fuel
  have hpos : 0 < n.toInt.toNat := by omega
  have hexecutions := executions_eq p.code fuel s.tape.size w.capacity hpos
  rw [hstreams]
  have hrecord (run : Run) := Session.recordRun_of_shelf
    (show (s.compile source).2.store = .present (.shelf shelf) from hstore) run
  dsimp only
  refine ⟨iterate_eq_judged none 0 _ _ _, ?_⟩
  rw [hbench]
  rcases hfirst : execute MemoryStreams.channel p.code fuel (Tape.zero s.tape.size)
    (freshStreams w.capacity) with _ | ⟨cause | _, m⟩ <;> rw [hfirst] at hexecutions
  · simp
  · refine ⟨by simp, by simp, ?_, ?_⟩
    · rintro e m' ⟨⟩
      exact ⟨hexecutions, _, rfl, rfl, rfl, rfl⟩
    · rintro e t ⟨⟩
      exact ⟨cause, m, rfl, rfl⟩
  · dsimp only
    rw [hrecord]
    refine ⟨by simp, ?_, by simp, by simp⟩
    rintro m' ⟨⟩
    have hsize := (cleared_of_execute hfirst).2.2
    have hmax : maxBytes = 281474976710656 := rfl
    have hfiled {run : Run} (h : run.time = (s.compile source).2.host.now) :=
      shelf.filed_record_of_now h
    refine ⟨hexecutions, _, _, rfl, rfl, rfl, ?_, ⟨_, rfl, rfl, hfiled rfl⟩, rfl, rfl⟩
    exact Int64.toInt_ofNat_of_lt (by omega)

/-- The program writes one byte, and the writer has room for that one only. The session has a tape
that is not clear and a program of the same name. -/
theorem bench_repeats_first_run_thrice :
    let s : Session :=
      { settings := {}, tape := #[5, 7], console := { feed := .empty },
        store := .present (.shelf { programs.rows := [(text "a", text "-")] }), host := {} }
    ∃ p m, (s.compile (text "+.")).1 = .ok p ∧ 1 ≤ (3 : Int64).toInt ∧
      MemoryWriter.ofCapacity 1 = .ok { capacity := 1 } ∧
      execute MemoryStreams.channel p.code 2 (Tape.zero s.tape.size)
        { reader := .ofBytes [], writer := { capacity := 1 } } = some (.ok (), m) ∧
      m.world.writer.content = #[1] ∧
      executions p.code 2 none (Tape.zero s.tape.size)
        { reader := .ofBytes [], writer := { capacity := 1 } } (3 : Int64).toInt.toNat =
          some [(.ok (), m), (.ok (), m), (.ok (), m)] ∧
      ∃ run t, s.bench 2 (text "a") (text "+.") (3 : Int64).toInt 1 = some (.ok run, t) ∧
        run.name = text "a" ∧ run.iterations = 3 ∧
        run.output.toInt = (m.world.writer.content.size : Int) ∧
        (∃ shelf, t.store = .present (.shelf shelf) ∧
          shelf.programs.rows = [(text "a", text "-")] ∧ shelf.filed (text "a") = [run]) ∧
        t.tape = s.tape ∧ t.console = s.console := by
  intro s
  have hfirst : ∃ p m, (s.compile (text "+.")).1 = .ok p ∧
      execute MemoryStreams.channel p.code 2 (Tape.zero s.tape.size)
        { reader := .ofBytes [], writer := { capacity := 1 } } = some (.ok (), m) ∧
      m.world.writer.content = #[1] := ⟨_, _, rfl, rfl, rfl⟩
  obtain ⟨p, m, hp, hm, hcontent⟩ := hfirst
  have hn : 1 ≤ (3 : Int64).toInt := by decide
  have hw : MemoryWriter.ofCapacity 1 = .ok { capacity := 1 } := rfl
  obtain ⟨-, -, hok, -, -⟩ := bench_repeats_first_run rfl hp hn hw (text "a") 2
  obtain ⟨hexecuted, run, t, hbench, hname, hiterations, houtput,
    ⟨shelf, hstore, hprograms, hfiled, -⟩, htape, hconsole⟩ := hok m hm
  exact ⟨p, m, hp, hn, hw, hm, hcontent, hexecuted, run, t, hbench, hname, hiterations, houtput,
    ⟨shelf, hstore, congrArg KeyTable.rows hprograms, hfiled⟩, htape, hconsole⟩

end Brainfuck
