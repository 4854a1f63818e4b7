import Brainfuck.Stream.Console

/-!
# Delivery of console output

A console collects the bytes that are written to it and delivers them later. What it has accepted
is at every moment split in two: the bytes at the sink, and behind them those still in the buffer.
No step loses, repeats or reorders a byte.

## Main Definitions

* `ConsoleStep`, `Console.perform`, `Console.afterSteps` — a step of a console, and any number of
  steps
* `Console.accepted` — the bytes of the writes that succeed
* `Console.FlushOutcome`, `Console.StepOutcome` — all that a delivery and a step can do
* `Console.Conserves`, `Console.Delivers` — the invariant of a console
* `Console.Silent` — a console whose sink gets nothing more

## Main Results

* `Console.flush_outcome`, `Console.step_outcome` — what a delivery and a step do
* `Console.Delivers.perform`, `Console.Delivers.afterSteps` — what a step and a history preserve
* `Console.Silent.perform`, `Console.Silent.afterSteps` — a console that has failed or is closed
  stays silent
* `console_delivers` — the sink compared with what was accepted

## Design Notes

A delivery that is cut short keeps the rest in the buffer, so that the equation of the invariant
also holds of a console that has failed. A closed writer may still be told to deliver. It has
nothing to deliver then, unless it has failed, and this is the one fact about closed writers that
the invariant needs.
-/

namespace Brainfuck

/-- A sink takes no more bytes than there are. -/
theorem Sink.room_le (s : Sink) (n : Nat) : s.room n ≤ n := by
  unfold room
  split <;> omega

/-- A sink takes no more bytes than its limit allows. -/
theorem Sink.size_add_room_le {s : Sink} {limit : Nat} (hlimit : s.limit = some limit)
    (hle : s.received.size ≤ limit) (n : Nat) : s.received.size + s.room n ≤ limit := by
  have hroom : s.room n = min n (limit - s.received.size) := by rw [room, hlimit]
  omega

/-- A feed fails at its end only, or because the device behind it does. -/
theorem Feed.error_of_next {f : Feed} {e : StreamError} (h : f.next.1 = .error e) :
    e = .endOfInput ∨ ∃ m, e = .broken m := by
  obtain ⟨bytes, failure⟩ := f
  cases bytes with
  | nil =>
      obtain rfl := Except.error.inj h
      cases failure with
      | none => exact .inl rfl
      | some m => exact .inr ⟨m, rfl⟩
  | cons b rest => cases h

/-- A step of a console. -/
inductive ConsoleStep where
  | put (b : UInt8)
  | flush
  | get
  | close
  deriving DecidableEq, Repr

/-- The byte that a step writes. -/
def ConsoleStep.bytes : ConsoleStep → Bytes
  | put b => [b]
  | flush | get | close => []

namespace Console

/-- Takes a step. The answer to a read that succeeds holds the byte. -/
def perform (c : Console) : ConsoleStep → Except StreamError (Option UInt8) × Console
  | .put b => (c.put b).map (Except.map fun _ => none) id
  | .flush => c.flush.map (Except.map fun _ => none) id
  | .get => c.get.map (Except.map some) id
  | .close => c.close.map (Except.map fun _ => none) id

/-- The console after some steps, whatever their answers. -/
def afterSteps : Console → List ConsoleStep → Console :=
  List.foldl fun c step => (c.perform step).2

/-- The bytes of the writes that succeed, in order. -/
def accepted : Console → List ConsoleStep → Bytes
  | _, [] => []
  | c, step :: steps =>
    (if (c.perform step).1.isOk then step.bytes else []) ++ (c.perform step).2.accepted steps

variable {c c' : Console} {e : StreamError} {limit : Option Nat} {bytes : Bytes}
  {step : ConsoleStep}

theorem afterSteps_append (c : Console) (steps later : List ConsoleStep) :
    c.afterSteps (steps ++ later) = (c.afterSteps steps).afterSteps later :=
  List.foldl_append

/-! ## One delivery -/

/-- The console after its buffer was delivered. -/
def delivered (c : Console) : Console :=
  { c with
    writer := { c.writer with pending := #[] }
    sink := { c.sink with received := c.sink.received ++ c.writer.pending } }

/-- The console after its sink took the bytes that fit, and others did not. -/
def cutShort (c : Console) : Console :=
  let taken := c.sink.room c.writer.pending.size
  { c with
    writer :=
      { c.writer with
        pending := c.writer.pending.extract taken c.writer.pending.size
        failure := some .sinkFull }
    sink := { c.sink with received := c.sink.received ++ c.writer.pending.extract 0 taken } }

/-- What a delivery can do: it fails as one before it did, it succeeds, or the sink has no room. -/
inductive FlushOutcome (c : Console) : Except StreamError Unit × Console → Prop where
  | failed {e : StreamError} : c.writer.failure = some e → FlushOutcome c (.error e, c)
  | delivered : c.writer.failure = none →
      c.sink.room c.writer.pending.size = c.writer.pending.size →
      FlushOutcome c (.ok (), c.delivered)
  | cutShort : c.writer.failure = none →
      c.sink.room c.writer.pending.size < c.writer.pending.size →
      FlushOutcome c (.error .sinkFull, c.cutShort)

/-- What a delivery does. -/
theorem flush_outcome (hmuted : c.writer.muted = false) : FlushOutcome c c.flush := by
  obtain ⟨feed, ⟨pending, failure, closed, muted⟩, sink⟩ := c
  subst hmuted
  cases failure with
  | some e => exact .failed rfl
  | none =>
      by_cases hempty : pending = #[]
      · subst hempty
        have hroom : sink.room 0 = 0 := Nat.le_zero.mp (sink.room_le 0)
        have hflush : flush ⟨feed, ⟨#[], none, closed, false⟩, sink⟩ =
            (.ok (), delivered ⟨feed, ⟨#[], none, closed, false⟩, sink⟩) := by
          simp [flush, delivered]
        rw [hflush]
        exact .delivered rfl hroom
      · rcases Nat.eq_or_lt_of_le (sink.room_le pending.size) with hall | hsome
        · have hflush : flush ⟨feed, ⟨pending, none, closed, false⟩, sink⟩ =
              (.ok (), delivered ⟨feed, ⟨pending, none, closed, false⟩, sink⟩) := by
            simp [flush, delivered, Sink.write, hall, hempty]
          rw [hflush]
          exact .delivered rfl hall
        · have hne : sink.room pending.size ≠ pending.size := Nat.ne_of_lt hsome
          have hflush : flush ⟨feed, ⟨pending, none, closed, false⟩, sink⟩ =
              (.error .sinkFull, cutShort ⟨feed, ⟨pending, none, closed, false⟩, sink⟩) := by
            simp [flush, cutShort, Sink.write, hne, hempty]
          rw [hflush]
          exact .cutShort rfl hsome

theorem flush_of_failure (h : c.writer.failure = some e) : c.flush = (.error e, c) := by
  obtain ⟨feed, ⟨pending, failure, closed, muted⟩, sink⟩ := c
  subst h
  rfl

/-! ## One step -/

/-- The console whose buffer a step delivers: a close marks the writer first. -/
def prepared (c : Console) : ConsoleStep → Console
  | .close => { c with writer := { c.writer with closed := true } }
  | .put _ | .flush | .get => c

/-- What a step does apart from the delivery. -/
def completed (c : Console) : ConsoleStep → Except StreamError (Option UInt8) × Console
  | .put b => (.ok none, c.push b)
  | .flush | .close => (.ok none, c)
  | .get => (c.feed.next.1.map some, { c with feed := c.feed.next.2 })

/-- All that a step can do. Only the command to deliver gets through to a closed writer. -/
inductive StepOutcome (c : Console) (step : ConsoleStep) :
    Except StreamError (Option UInt8) × Console → Prop where
  /-- The delivery failed, and the step with it. -/
  | failed {e : StreamError} {c' : Console} : step = .flush ∨ c.writer.closed = false →
      (c.prepared step).flush = (.error e, c') → StepOutcome c step (.error e, c')
  | delivered {c' : Console} : step = .flush ∨ c.writer.closed = false →
      (c.prepared step).flush = (.ok (), c') → StepOutcome c step (c'.completed step)
  /-- The buffer had room for a byte. -/
  | collected {b : UInt8} : step = .put b → c.writer.closed = false → c.writer.failure = none →
      StepOutcome c step (c.completed step)
  /-- The writer was closed, and the step is none for a writer. -/
  | passed : step = .get ∨ step = .close → c.writer.closed = true →
      StepOutcome c step (c.completed step)
  | refused {b : UInt8} : step = .put b → c.writer.closed = true →
      StepOutcome c step (.error .writerClosed, c)

theorem put_outcome (c : Console) (b : UInt8) : StepOutcome c (.put b) (c.perform (.put b)) := by
  show StepOutcome c _ ((c.put b).map (Except.map fun _ => none) id)
  unfold put
  split
  · next hclosed => exact .refused rfl hclosed
  · next hopen =>
      have hopen := eq_false_of_ne_true hopen
      split
      · next e hfailure => exact .failed (.inr hopen) (flush_of_failure hfailure)
      · next hhealthy =>
          split
          · exact .collected rfl hopen hhealthy
          · split
            · next c' hflush => exact .delivered (.inr hopen) hflush
            · next e c' hflush => exact .failed (.inr hopen) hflush

theorem get_outcome (c : Console) : StepOutcome c .get (c.perform .get) := by
  show StepOutcome c _ (c.get.map (Except.map some) id)
  cases hclosed : c.writer.closed with
  | true =>
      rw [get, if_pos hclosed]
      exact .passed (.inl rfl) hclosed
  | false =>
      rcases hflush : c.flush with ⟨e | _, c'⟩
      · simp only [get, hclosed, hflush]
        exact .failed (.inr hclosed) hflush
      · simp only [get, hclosed, hflush]
        exact .delivered (.inr hclosed) hflush

/-- What a step does. -/
theorem step_outcome (c : Console) (step : ConsoleStep) :
    StepOutcome c step (c.perform step) := by
  have hanswer {c₀ : Console} {step : ConsoleStep} (hstep : step = .flush ∨ step = .close)
      (hdelivers : step = .flush ∨ c.writer.closed = false) (hprepared : c.prepared step = c₀) :
      StepOutcome c step (c₀.flush.map (Except.map fun _ => none) id) := by
    subst hprepared
    rcases hflush : (c.prepared step).flush with ⟨e | _, c'⟩
    · exact .failed hdelivers hflush
    · rcases hstep with rfl | rfl
      · exact .delivered hdelivers hflush
      · exact .delivered hdelivers hflush
  cases step with
  | put b => exact put_outcome c b
  | get => exact get_outcome c
  | flush => exact hanswer (.inl rfl) (.inl rfl) rfl
  | close =>
      show StepOutcome c _ (c.close.map (Except.map fun _ => none) id)
      cases hclosed : c.writer.closed with
      | true =>
          rw [close, if_pos hclosed]
          exact .passed (.inr rfl) hclosed
      | false =>
          simp only [close, hclosed]
          exact hanswer (.inr rfl) (.inr hclosed) rfl

/-! ## The invariant -/

/-- The error of the sink, after more bytes were accepted than the sink takes. -/
def Exceeds (limit : Option Nat) (bytes : Bytes) (e : StreamError) : Prop :=
  e = .sinkFull ∧ ∃ n, limit = some n ∧ n < bytes.length

/-- The bytes that were accepted are those at the sink and those in the buffer, and the sink keeps
its limit. A delivery has failed only if they are too many. -/
structure Conserves (limit : Option Nat) (bytes : Bytes) (c : Console) : Prop where
  bytes_eq : c.sink.received.toList ++ c.writer.pending.toList = bytes
  limit_eq : c.sink.limit = limit
  size_le : ∀ n, limit = some n → c.sink.received.size ≤ n
  audible : c.writer.muted = false
  exceeds : ∀ e, c.writer.failure = some e → Exceeds limit bytes e

/-- A console that conserves what it accepts, and has delivered it before it was closed, unless it
has failed. -/
structure Delivers (limit : Option Nat) (bytes : Bytes) (c : Console) : Prop
    extends Conserves limit bytes c where
  drained : c.writer.closed = true → c.writer.failure = none → c.writer.pending = #[]

/-- A console without output has nothing to lose. -/
theorem delivers_start (feed : Feed) (limit : Option Nat) :
    Delivers limit [] { feed, sink := { limit } } where
  bytes_eq := rfl
  limit_eq := rfl
  size_le := fun n _ => Nat.zero_le n
  audible := rfl
  exceeds := by
    intro e he
    cases he
  drained := fun _ _ => rfl

/-- The two parts of a buffer that is cut are one behind the other. -/
theorem extract_append_extract_toList (pending : Array UInt8) (taken : Nat) :
    (pending.extract 0 taken).toList ++ (pending.extract taken pending.size).toList =
      pending.toList := by
  have hrest : (pending.toList.drop taken).take (pending.size - taken) =
      pending.toList.drop taken := List.take_of_length_le (by simp)
  simp [hrest, List.take_append_drop]

theorem Exceeds.append (h : Exceeds limit bytes e) (more : Bytes) :
    Exceeds limit (bytes ++ more) e := by
  obtain ⟨he, n, hn, hlt⟩ := h
  refine ⟨he, n, hn, ?_⟩
  rw [List.length_append]
  omega

/-- A sink that has no room for the buffer has a limit, and this is exceeded. -/
theorem Conserves.exceeds_of_room (h : Conserves limit bytes c)
    (hroom : c.sink.room c.writer.pending.size < c.writer.pending.size) :
    Exceeds limit bytes .sinkFull := by
  refine ⟨rfl, ?_⟩
  cases hlimit : c.sink.limit with
  | none =>
      simp only [Sink.room, hlimit] at hroom
      exact absurd hroom (Nat.lt_irrefl _)
  | some n =>
      refine ⟨n, h.limit_eq.symm.trans hlimit, ?_⟩
      simp only [Sink.room, hlimit] at hroom
      rw [← h.bytes_eq, List.length_append, Array.length_toList, Array.length_toList]
      omega

/-- A delivery moves bytes from the buffer to the sink. -/
theorem Conserves.flush (h : Conserves limit bytes c) : Conserves limit bytes c.flush.2 := by
  have hfits (n : Nat) (hn : limit = some n) :
      c.sink.received.size + c.sink.room c.writer.pending.size ≤ n :=
    Sink.size_add_room_le (h.limit_eq.trans hn) (h.size_le n hn) _
  have houtcome := flush_outcome h.audible
  generalize c.flush = result at houtcome
  cases houtcome with
  | failed _ => exact h
  | delivered _ hroom =>
      refine ⟨?_, h.limit_eq, ?_, h.audible, h.exceeds⟩
      · simp [Console.delivered, ← h.bytes_eq]
      · intro n hn
        simpa [Console.delivered, hroom] using hfits n hn
  | cutShort _ hroom =>
      refine ⟨?_, h.limit_eq, ?_, h.audible, ?_⟩
      · simp only [Console.cutShort, Array.toList_append, List.append_assoc,
          extract_append_extract_toList]
        exact h.bytes_eq
      · intro n hn
        have hle := hfits n hn
        simp only [Console.cutShort, Array.size_append, Array.size_extract]
        omega
      · intro e he
        obtain rfl := Option.some.inj he
        exact h.exceeds_of_room hroom

/-- After a delivery that succeeds the sink has everything. -/
theorem Conserves.received_of_flush (h : Conserves limit bytes c)
    (hflush : c.flush = (.ok (), c')) :
    c'.sink.received.toList = bytes ∧ c'.writer.pending = #[] := by
  have houtcome := flush_outcome h.audible
  rw [hflush] at houtcome
  cases houtcome with
  | delivered _ _ => exact ⟨by simp [Console.delivered, ← h.bytes_eq], rfl⟩

/-- A delivery that fails leaves its error, which is that of the sink. -/
theorem Conserves.failure_of_flush (h : Conserves limit bytes c)
    (hflush : c.flush = (.error e, c')) :
    Exceeds limit bytes e ∧ c'.writer.failure = some e := by
  have houtcome := flush_outcome h.audible
  rw [hflush] at houtcome
  cases houtcome with
  | failed hfailure => exact ⟨h.exceeds e hfailure, hfailure⟩
  | cutShort _ hroom => exact ⟨h.exceeds_of_room hroom, rfl⟩

/-- A delivery neither opens nor closes the writer. -/
theorem Conserves.closed_of_flush {result : Except StreamError Unit}
    (h : Conserves limit bytes c) (hflush : c.flush = (result, c')) :
    c'.writer.closed = c.writer.closed := by
  have houtcome := flush_outcome h.audible
  rw [hflush] at houtcome
  cases houtcome <;> rfl

theorem Conserves.prepared (h : Conserves limit bytes c) (step : ConsoleStep) :
    Conserves limit bytes (c.prepared step) := by
  cases step with
  | close => exact ⟨h.bytes_eq, h.limit_eq, h.size_le, h.audible, h.exceeds⟩
  | put b => exact h
  | flush => exact h
  | get => exact h

/-- What a step does apart from the delivery adds the byte that it accepts. -/
theorem Conserves.completed (h : Conserves limit bytes c) (step : ConsoleStep) :
    Conserves limit (bytes ++ if (c.completed step).1.isOk then step.bytes else [])
      (c.completed step).2 := by
  have hnothing (answer : Except StreamError (Option UInt8)) :
      (bytes ++ if answer.isOk then ([] : Bytes) else []) = bytes := by
    rw [ite_self, List.append_nil]
  cases step with
  | put b =>
      refine ⟨?_, h.limit_eq, h.size_le, h.audible, fun e he => (h.exceeds e he).append _⟩
      show c.sink.received.toList ++ (c.writer.pending.push b).toList = bytes ++ [b]
      simp [← h.bytes_eq]
  | flush => exact (hnothing _).symm ▸ h
  | close => exact (hnothing _).symm ▸ h
  | get =>
      refine ⟨?_, h.limit_eq, h.size_le, h.audible, fun e he => (h.exceeds e he).append _⟩
      exact h.bytes_eq.trans (hnothing _).symm

theorem closed_completed (c : Console) (step : ConsoleStep) :
    (c.completed step).2.writer.closed = c.writer.closed := by
  cases step <;> rfl

/-- Apart from the delivery, only a write does something to the writer. -/
theorem writer_completed (c : Console) (step : ConsoleStep) :
    (∃ b, step = .put b) ∨ (c.completed step).2.writer = c.writer := by
  cases step with
  | put b => exact .inl ⟨b, rfl⟩
  | flush => exact .inr rfl
  | get => exact .inr rfl
  | close => exact .inr rfl

/-- A step keeps the invariant, with the byte that it accepts. -/
theorem Delivers.perform (h : Delivers limit bytes c) (step : ConsoleStep) :
    Delivers limit (bytes ++ if (c.perform step).1.isOk then step.bytes else [])
      (c.perform step).2 := by
  have houtcome := step_outcome c step
  generalize c.perform step = result at houtcome
  have hflushed := (h.prepared step).flush
  cases houtcome with
  | failed _ hflush =>
      rw [hflush] at hflushed
      have hfailure := ((h.prepared step).failure_of_flush hflush).2
      simp only [Except.isOk, Except.toBool, Bool.false_eq_true, if_false, List.append_nil]
      exact ⟨hflushed, fun _ hhealthy => by cases hfailure.symm.trans hhealthy⟩
  | @delivered c' hdelivers hflush =>
      rw [hflush] at hflushed
      refine ⟨hflushed.completed step, ?_⟩
      intro hclosed _
      obtain ⟨b, rfl⟩ | hwriter := writer_completed c' step
      · -- a write is no step for a closed writer
        rw [closed_completed, (h.prepared _).closed_of_flush hflush] at hclosed
        obtain hstep | hopen := hdelivers
        · cases hstep
        · cases hopen.symm.trans hclosed
      · rw [hwriter]
        exact ((h.prepared step).received_of_flush hflush).2
  | collected _ hopen _ =>
      refine ⟨h.completed step, ?_⟩
      intro hclosed
      rw [closed_completed] at hclosed
      cases hopen.symm.trans hclosed
  | passed hstep _ =>
      refine ⟨h.completed step, ?_⟩
      obtain ⟨b, rfl⟩ | hwriter := writer_completed c step
      · obtain hstep | hstep := hstep <;> cases hstep
      · rw [hwriter]
        exact h.drained
  | refused _ _ => simpa [Except.isOk, Except.toBool] using h

/-- Any steps keep the invariant. -/
theorem Delivers.afterSteps (h : Delivers limit bytes c) (steps : List ConsoleStep) :
    Delivers limit (bytes ++ c.accepted steps) (c.afterSteps steps) := by
  induction steps generalizing c bytes with
  | nil =>
      rw [accepted, List.append_nil]
      exact h
  | cons step steps ih =>
      have h' := ih (h.perform step)
      rwa [List.append_assoc] at h'

/-! ## Closed and failed writers -/

/-- A writer is closed by the step that is meant to close it, and never opened again. -/
theorem Delivers.closed_perform (h : Delivers limit bytes c) (step : ConsoleStep) :
    (c.perform step).2.writer.closed = (c.writer.closed || step == .close) := by
  have hprepared : (c.prepared step).writer.closed = (c.writer.closed || step == .close) := by
    cases step with
    | close => exact (Bool.or_true _).symm
    | put b => exact (Bool.or_false _).symm
    | flush => exact (Bool.or_false _).symm
    | get => exact (Bool.or_false _).symm
  have houtcome := step_outcome c step
  generalize c.perform step = result at houtcome
  cases houtcome with
  | failed _ hflush => rw [(h.prepared step).closed_of_flush hflush, hprepared]
  | delivered _ hflush =>
      rw [closed_completed, (h.prepared step).closed_of_flush hflush, hprepared]
  | collected hstep _ _ =>
      subst hstep
      rw [closed_completed, ← hprepared]
      rfl
  | passed _ hclosed => rw [closed_completed, hclosed, Bool.true_or]
  | refused _ hclosed => rw [hclosed, Bool.true_or]

theorem Delivers.closed_afterSteps (h : Delivers limit bytes c) (steps : List ConsoleStep) :
    (c.afterSteps steps).writer.closed = (c.writer.closed || steps.contains .close) := by
  induction steps generalizing c bytes with
  | nil =>
      rw [List.contains_nil, Bool.or_false]
      rfl
  | cons step steps ih =>
      rw [List.contains_cons, ← Bool.or_assoc, BEq.comm (a := ConsoleStep.close),
        ← h.closed_perform step]
      exact ih (h.perform step)

theorem completed_ne_sinkFull (c : Console) (step : ConsoleStep) :
    (c.completed step).1 ≠ .error .sinkFull := by
  intro hsink
  cases step with
  | get =>
      change Except.map some c.feed.next.1 = _ at hsink
      cases hread : c.feed.next.1 with
      | ok b =>
          rw [hread] at hsink
          cases hsink
      | error e =>
          rw [hread] at hsink
          obtain rfl := Except.error.inj hsink
          obtain hend | ⟨m, hbroken⟩ := Feed.error_of_next hread
          · cases hend
          · cases hbroken
  | put b => cases hsink
  | flush => cases hsink
  | close => cases hsink

/-- A step that fails with the error of the sink has failed in a delivery. -/
theorem Delivers.failure_of_perform (h : Delivers limit bytes c)
    (hfail : (c.perform step).1 = .error .sinkFull) :
    Exceeds limit bytes .sinkFull ∧ (c.perform step).2.writer.failure = some .sinkFull := by
  have houtcome := step_outcome c step
  generalize c.perform step = result at houtcome hfail
  cases houtcome with
  | failed _ hflush =>
      obtain rfl := Except.error.inj hfail
      exact (h.prepared step).failure_of_flush hflush
  | delivered _ _ => exact absurd hfail (completed_ne_sinkFull _ step)
  | collected _ _ _ => exact absurd hfail (completed_ne_sinkFull _ step)
  | passed _ _ => exact absurd hfail (completed_ne_sinkFull _ step)
  | refused _ _ => cases hfail

/-- Where a step delivers and does not fail for it, the sink has everything after it. -/
theorem Delivers.received_of_perform (h : Delivers limit bytes c)
    (hstep : step = .flush ∨ (c.writer.closed = false ∧ (step = .close ∨ step = .get)))
    (hok : (c.perform step).1 ≠ .error .sinkFull) :
    (c.perform step).2.sink.received.toList = bytes := by
  have hput (b : UInt8) : step ≠ .put b := by
    rintro rfl
    simp at hstep
  have houtcome := step_outcome c step
  generalize c.perform step = result at houtcome hok
  cases houtcome with
  | failed _ hflush =>
      obtain ⟨⟨rfl, -⟩, -⟩ := (h.prepared step).failure_of_flush hflush
      exact absurd rfl hok
  | @delivered c' _ hflush =>
      have hsink : (c'.completed step).2.sink = c'.sink := by cases step <;> rfl
      rw [hsink]
      exact ((h.prepared step).received_of_flush hflush).1
  | collected hstep _ _ => exact absurd hstep (hput _)
  | passed hstep' hclosed =>
      obtain rfl | ⟨hopen, -⟩ := hstep
      · obtain hstep' | hstep' := hstep' <;> cases hstep'
      · cases hopen.symm.trans hclosed
  | refused hstep _ => exact absurd hstep (hput _)

/-- An open writer accepts a byte, unless it fails in a delivery. -/
theorem Delivers.put_of_open (h : Delivers limit bytes c) (hopen : c.writer.closed = false)
    (b : UInt8) :
    (c.perform (.put b)).1 = .ok none ∨ (c.perform (.put b)).1 = .error .sinkFull := by
  have houtcome := step_outcome c (.put b)
  generalize c.perform (.put b) = result at houtcome
  cases houtcome with
  | failed _ hflush =>
      obtain ⟨⟨rfl, -⟩, -⟩ := (h.prepared (.put b)).failure_of_flush hflush
      exact .inr rfl
  | delivered _ _ => exact .inl rfl
  | collected _ _ _ => exact .inl rfl
  | passed _ _ => exact .inl rfl
  | refused _ hclosed => cases hopen.symm.trans hclosed

/-- A console whose sink gets nothing more: its writer has failed, or it is closed and has nothing
left to deliver. -/
def Silent (c : Console) : Prop :=
  c.writer.failure ≠ none ∨ (c.writer.closed = true ∧ c.writer.pending = #[])

/-- What a step on a silent console leaves as it is. -/
structure Undisturbed (c c' : Console) : Prop where
  sink_eq : c'.sink = c.sink
  failure_eq : c'.writer.failure = c.writer.failure
  pending_eq : c'.writer.pending = c.writer.pending
  closed_of : c.writer.closed = true → c'.writer.closed = true

theorem Undisturbed.refl (c : Console) : Undisturbed c c :=
  ⟨rfl, rfl, rfl, id⟩

theorem Undisturbed.trans {c'' : Console} (h : Undisturbed c c') (h' : Undisturbed c' c'') :
    Undisturbed c c'' :=
  ⟨h'.sink_eq.trans h.sink_eq, h'.failure_eq.trans h.failure_eq, h'.pending_eq.trans h.pending_eq,
    fun hclosed => h'.closed_of (h.closed_of hclosed)⟩

theorem undisturbed_prepared (c : Console) (step : ConsoleStep) :
    Undisturbed c (c.prepared step) := by
  cases step with
  | close => exact ⟨rfl, rfl, rfl, fun _ => rfl⟩
  | put b => exact .refl c
  | flush => exact .refl c
  | get => exact .refl c

theorem undisturbed_completed (c : Console) (hstep : ∀ b, step ≠ .put b) :
    Undisturbed c (c.completed step).2 := by
  cases step with
  | put b => exact absurd rfl (hstep b)
  | flush => exact .refl c
  | close => exact .refl c
  | get => exact ⟨rfl, rfl, rfl, id⟩

namespace Silent

theorem of_undisturbed (h : c.Silent) (hsame : Undisturbed c c') : c'.Silent := by
  rcases h with hfailed | ⟨hclosed, hdrained⟩
  · left
    rwa [hsame.failure_eq]
  · exact .inr ⟨hsame.closed_of hclosed, hsame.pending_eq.trans hdrained⟩

/-- A silent console that is still open has failed. -/
theorem exists_failure (h : c.Silent) (hopen : c.writer.closed = false) :
    ∃ e, c.writer.failure = some e := by
  rcases h with hfailed | ⟨hclosed, -⟩
  · exact Option.ne_none_iff_exists'.mp hfailed
  · cases hopen.symm.trans hclosed

/-- A silent console delivers nothing. -/
theorem flush_eq (h : c.Silent) (hmuted : c.writer.muted = false) : c.flush.2 = c := by
  have houtcome := flush_outcome hmuted
  generalize c.flush = result at houtcome
  cases houtcome with
  | failed _ => rfl
  | delivered hhealthy _ =>
      rcases h with hfailed | ⟨-, hdrained⟩
      · exact absurd hhealthy hfailed
      · obtain ⟨feed, ⟨pending, failure, closed, muted⟩, sink⟩ := c
        subst hdrained
        simp [delivered]
  | cutShort hhealthy hroom =>
      rcases h with hfailed | ⟨-, hdrained⟩
      · exact absurd hhealthy hfailed
      · rw [hdrained] at hroom
        exact absurd hroom (Nat.not_lt_zero _)

/-- A step on a silent console does not disturb it. -/
theorem perform (h : c.Silent) (hd : Delivers limit bytes c) (step : ConsoleStep) :
    Undisturbed c (c.perform step).2 := by
  have hprepared := undisturbed_prepared c step
  have hflushed := (h.of_undisturbed hprepared).flush_eq (hd.prepared step).audible
  have houtcome := step_outcome c step
  generalize c.perform step = result at houtcome
  cases houtcome with
  | failed _ hflush =>
      rw [hflush] at hflushed
      subst hflushed
      exact hprepared
  | @delivered c' hdelivers hflush =>
      rw [hflush] at hflushed
      subst hflushed
      refine hprepared.trans (undisturbed_completed _ ?_)
      rintro b rfl
      obtain hstep | hopen := hdelivers
      · cases hstep
      · obtain ⟨e, he⟩ := h.exists_failure hopen
        cases hflush.symm.trans (flush_of_failure he)
  | collected _ hopen hhealthy =>
      obtain ⟨e, he⟩ := h.exists_failure hopen
      cases hhealthy.symm.trans he
  | passed hstep _ =>
      refine undisturbed_completed c ?_
      rintro b rfl
      obtain hstep | hstep := hstep <;> cases hstep
  | refused _ _ => exact .refl c

/-- No steps disturb a silent console. -/
theorem afterSteps (h : c.Silent) (hd : Delivers limit bytes c) (steps : List ConsoleStep) :
    Undisturbed c (c.afterSteps steps) := by
  induction steps generalizing c bytes with
  | nil => exact .refl c
  | cons step steps ih =>
      have hstep := h.perform hd step
      exact hstep.trans (ih (h.of_undisturbed hstep) (hd.perform step))

end Silent

/-- A step that must deliver and cannot fails with the error of the sink. -/
theorem perform_of_failure (h : c.writer.failure = some e)
    (hdelivers : step = .flush ∨ c.writer.closed = false) (hstep : step ≠ .close) :
    c.perform step = (.error e, c) := by
  have hflush := flush_of_failure h
  cases step with
  | close => exact absurd rfl hstep
  | flush => simp [perform, hflush, Except.map]
  | put b =>
      have hopen := hdelivers.resolve_left (by simp)
      simp [perform, put, hopen, h, Except.map]
  | get =>
      have hopen := hdelivers.resolve_left (by simp)
      simp [perform, get, hopen, hflush, Except.map]

/-- A closed writer refuses a byte and is not closed twice. -/
theorem perform_of_closed (h : c.writer.closed = true) :
    (∀ b, c.perform (.put b) = (.error .writerClosed, c)) ∧ c.perform .close = (.ok none, c) := by
  constructor
  · intro b
    simp [perform, put, h, Except.map]
  · simp [perform, close, h, Except.map]

end Console

/-- **A console delivers what it accepts.** After any steps on a fresh console, the bytes at the
sink are a prefix of those that were accepted, and no more than the sink takes. A step that
delivers, unless it fails for it, leaves all of them at the sink: this is any flush, and a close or
a read while the writer is open. A delivery fails only if more bytes were accepted than the sink
takes. From then on the sink is left alone, every flush fails with the same error, and while the
writer is open so do every write and every read, which then takes no byte. An open writer refuses a
byte for no other reason. A closed writer refuses every byte, its sink is left alone, and it may be
closed again. -/
theorem console_delivers (feed : Feed) (limit : Option Nat) (steps : List ConsoleStep) :
    let start : Console := { feed, sink := { limit } }
    let c := start.afterSteps steps
    (c.sink.received.toList <+: start.accepted steps ∧
      ∀ n, limit = some n → c.sink.received.size ≤ n) ∧
    (∀ step, step = .flush ∨ (.close ∉ steps ∧ (step = .close ∨ step = .get)) →
      (c.perform step).1 ≠ .error .sinkFull →
      (c.perform step).2.sink.received.toList = start.accepted steps) ∧
    (∀ step later, (c.perform step).1 = .error .sinkFull →
      let failed := (c.perform step).2
      let c' := failed.afterSteps later
      (∃ n, limit = some n ∧ n < (start.accepted steps).length) ∧
      c'.sink = failed.sink ∧ (c'.perform .flush).1 = .error .sinkFull ∧
      (.close ∉ steps ++ step :: later →
        (∀ b, (c'.perform (.put b)).1 = .error .sinkFull) ∧
        c'.perform .get = (.error .sinkFull, c'))) ∧
    (.close ∉ steps → ∀ b, (c.perform (.put b)).1 = .ok none ∨
      (c.perform (.put b)).1 = .error .sinkFull) ∧
    ∀ later,
      let closed := (c.perform .close).2
      let c' := closed.afterSteps later
      c'.sink = closed.sink ∧ (∀ b, (c'.perform (.put b)).1 = .error .writerClosed) ∧
      (c'.perform .close).1 = .ok none := by
  intro start c
  have hstart := Console.delivers_start feed limit
  have hc : c.Delivers limit (start.accepted steps) := hstart.afterSteps steps
  have hopen (h : .close ∉ steps) : c.writer.closed = false := by
    have hclosed := hstart.closed_afterSteps steps
    simpa [h] using hclosed
  refine ⟨⟨⟨_, hc.bytes_eq⟩, hc.size_le⟩, ?_, ?_, fun h => hc.put_of_open (hopen h), ?_⟩
  · intro step hstep hok
    refine hc.received_of_perform ?_ hok
    exact hstep.imp_right (And.imp_left hopen)
  · intro step later hfail failed c'
    obtain ⟨⟨-, hexceeds⟩, hfailure⟩ := hc.failure_of_perform hfail
    have hfailed := hc.perform step
    have hsilent : failed.Silent := .inl (by simp [failed, hfailure])
    have hsame := hsilent.afterSteps hfailed later
    have hfailure' : c'.writer.failure = some .sinkFull := hsame.failure_eq.trans hfailure
    refine ⟨hexceeds, hsame.sink_eq, ?_, ?_⟩
    · rw [Console.perform_of_failure hfailure' (.inl rfl) (by simp)]
    · intro hnever
      have hopen' : c'.writer.closed = false := by
        have hc' : c' = start.afterSteps (steps ++ step :: later) :=
          (Console.afterSteps_append start steps (step :: later)).symm
        rw [hc', hstart.closed_afterSteps, List.contains_eq_mem, decide_eq_false hnever]
        rfl
      refine ⟨fun b => ?_, Console.perform_of_failure hfailure' (.inr hopen') (by simp)⟩
      rw [Console.perform_of_failure hfailure' (.inr hopen') (by simp)]
  · intro later closed c'
    have hclosed : closed.Delivers limit _ := hc.perform .close
    have hshut : closed.writer.closed = true := by
      rw [hc.closed_perform]
      exact Bool.or_true _
    have hsilent : closed.Silent := by
      by_cases hhealthy : closed.writer.failure = none
      · exact .inr ⟨hshut, hclosed.drained hshut hhealthy⟩
      · exact .inl hhealthy
    have hsame := hsilent.afterSteps hclosed later
    obtain ⟨hput, hagain⟩ := Console.perform_of_closed (hsame.closed_of hshut)
    exact ⟨hsame.sink_eq, fun b => by rw [hput b], by rw [hagain]⟩

/-- A sink with room for two of three bytes: the flush fails, and what comes after it changes
nothing. -/
theorem console_delivers_of_short_sink :
    let start : Console := { feed := { bytes := [0x78] }, sink := { limit := some 2 } }
    let steps : List ConsoleStep := [.put 0x61, .put 0x62, .put 0x63]
    let later : List ConsoleStep := [.put 0x64, .get, .flush]
    let c := start.afterSteps steps
    let failed := (c.perform .flush).2
    let c' := failed.afterSteps later
    (c.perform .flush).1 = .error .sinkFull ∧ .close ∉ steps ++ .flush :: later ∧
      failed.sink.received = #[0x61, 0x62] ∧ c'.sink = failed.sink ∧
      c'.perform .get = (.error .sinkFull, c') := by
  intro start steps later c failed c'
  have hfail : (c.perform .flush).1 = .error .sinkFull := rfl
  have hopen : .close ∉ steps ++ .flush :: later := by decide
  obtain ⟨-, -, hfailed, -⟩ := console_delivers { bytes := [0x78] } (some 2) steps
  obtain ⟨-, hsink, -, hanswers⟩ := hfailed .flush later hfail
  exact ⟨hfail, hopen, by decide, hsink, (hanswers hopen).2⟩

end Brainfuck
