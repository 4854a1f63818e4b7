import Brainfuck.Proofs.Delivery
import Brainfuck.Proofs.Streams
import Brainfuck.Session

/-!
# Consoles and memory streams

A session runs code on a console whose sink takes any number of bytes just as it would run on
streams in memory: with the same result, the same tape and the same input left, and when the run
has ended, however it ended, the sink has received what a memory writer would hold.

## Main Definitions

* `Console.written` — what was written to a console: the bytes at the sink and those in the buffer
* `Console.Healthy` — an open console over a sink without a limit
* `Mirrors` — a console and memory streams that stand at the same point of a run
* `Suffices` — a capacity that a run does not use up

## Main Results

* `follows_console` — a console gives the answers of memory streams
* `suffices_of_execute` — as many bytes as were delivered are enough for a memory writer
* `session_executes_like_memory` — runs on a console and in memory
-/

namespace Brainfuck

namespace Console

/-- What was written to a console. -/
def written (c : Console) : Array UInt8 :=
  c.sink.received ++ c.writer.pending

/-- An open console over a sink without a limit, of which no delivery has failed. -/
structure Healthy (c : Console) : Prop where
  limit_eq : c.sink.limit = none
  failure_eq : c.writer.failure = none
  closed_eq : c.writer.closed = false
  muted_eq : c.writer.muted = false

variable {c : Console}

theorem written_delivered (c : Console) : c.delivered.written = c.written := by
  simp [written, delivered]

theorem written_push (c : Console) (b : UInt8) : (c.push b).written = c.written.push b := by
  simp [written, push]

namespace Healthy

theorem delivered (h : c.Healthy) (feed : Feed) : { c.delivered with feed }.Healthy :=
  ⟨h.limit_eq, h.failure_eq, h.closed_eq, h.muted_eq⟩

theorem push (h : c.Healthy) (b : UInt8) : (c.push b).Healthy :=
  ⟨h.limit_eq, h.failure_eq, h.closed_eq, h.muted_eq⟩

/-- A healthy console delivers its whole buffer. -/
theorem flush (h : c.Healthy) : c.flush = (.ok (), c.delivered) := by
  have houtcome := flush_outcome h.muted_eq
  generalize c.flush = result at houtcome
  cases houtcome with
  | failed hfailure => cases h.failure_eq.symm.trans hfailure
  | delivered _ _ => rfl
  | cutShort _ hroom =>
      simp only [Sink.room, h.limit_eq] at hroom
      exact absurd hroom (Nat.lt_irrefl _)

/-- What a delivery leaves of a healthy console. -/
theorem delivered_eq (h : c.Healthy) :
    c.delivered = { feed := c.feed, sink := { received := c.written } } := by
  obtain ⟨feed, ⟨pending, failure, closed, muted⟩, limit, received⟩ := c
  obtain ⟨rfl, rfl, rfl, rfl⟩ := h
  rfl

/-- A healthy console accepts every byte. -/
theorem put (h : c.Healthy) (b : UInt8) :
    ∃ c' : Console, c.put b = (.ok (), c') ∧ c'.feed = c.feed ∧
      c'.written = c.written.push b ∧ c'.Healthy := by
  by_cases hroom : c.writer.pending.size < bufferSize
  · refine ⟨c.push b, ?_, rfl, c.written_push b, h.push b⟩
    simp [Console.put, h.closed_eq, h.failure_eq, hroom]
  · refine ⟨c.delivered.push b, ?_, rfl, ?_, (h.delivered c.feed).push b⟩
    · simp [Console.put, h.closed_eq, h.failure_eq, hroom, h.flush]
    · rw [written_push, written_delivered]

theorem get (h : c.Healthy) :
    c.get = (c.feed.next.1, { c.delivered with feed := c.feed.next.2 }) := by
  unfold Console.get
  rw [h.closed_eq, h.flush]
  rfl

end Healthy

end Console

/-! ## The same answers -/

/-- Memory streams over `input`, with a writer of some capacity, and a console that stand at the
same point of a run. The bytes `sent` were written to the console before. -/
structure Mirrors (input : Bytes) (capacity : Nat) (sent : Array UInt8) (w : MemoryStreams)
    (c : Console) : Prop where
  text_eq : w.reader.text = input.toArray
  feed_eq : c.feed = { bytes := input.drop w.reader.position }
  capacity_eq : w.writer.capacity = capacity
  written_eq : c.written = sent ++ w.writer.content
  healthy : c.Healthy

/-- The excuse of a memory writer that has no room for a byte: more bytes were written to the
console than the memory writer can hold. -/
def Outrun (capacity : Nat) (sent : Array UInt8) (d : Direction) (e : StreamError)
    (_ : MemoryStreams) (c : Console) : Prop :=
  d = .output ∧ e = .bufferFull ∧ c.Healthy ∧ sent.size + capacity < c.written.size

variable {input : Bytes} {capacity : Nat} {sent : Array UInt8} {w : MemoryStreams} {c : Console}

/-- A feed of the bytes that a memory reader has before it gives the byte that the reader gives. -/
theorem next_drop (input : Bytes) (position : Nat) :
    Feed.next { bytes := input.drop position } =
      match input[position]? with
      | some b => (.ok b, { bytes := input.drop (position + 1) })
      | none => (.error .endOfInput, { bytes := input.drop position }) := by
  cases hbyte : input[position]? with
  | some b =>
      obtain ⟨hlt, rfl⟩ := List.getElem?_eq_some_iff.mp hbyte
      rw [List.drop_eq_getElem_cons hlt]
      rfl
  | none =>
      rw [List.drop_eq_nil_of_le (List.getElem?_eq_none_iff.mp hbyte)]
      rfl

theorem Mirrors.get (h : Mirrors input capacity sent w c) :
    SameAnswer (Mirrors input capacity sent) (Outrun capacity sent .input)
      (MemoryStreams.channel.get w) (Console.channel.get c) := by
  obtain ⟨⟨text, position⟩, writer⟩ := w
  obtain rfl : text = input.toArray := h.text_eq
  have hfeed : c.feed = { bytes := input.drop position } := h.feed_eq
  have hwritten := c.written_delivered.trans h.written_eq
  have hconsole : Console.channel.get c = c.get := rfl
  rw [hconsole, h.healthy.get, hfeed, next_drop]
  simp only [MemoryStreams.channel, MemoryReader.get, List.getElem?_toArray]
  cases input[position]? with
  | some b => exact .same ⟨rfl, rfl, h.capacity_eq, hwritten, h.healthy.delivered _⟩
  | none => exact .same ⟨rfl, rfl, h.capacity_eq, hwritten, h.healthy.delivered _⟩

theorem Mirrors.put (h : Mirrors input capacity sent w c) (b : UInt8) :
    SameAnswer (Mirrors input capacity sent) (Outrun capacity sent .output)
      (MemoryStreams.channel.put b w) (Console.channel.put b c) := by
  obtain ⟨reader, writerCapacity, content⟩ := w
  obtain rfl : writerCapacity = capacity := h.capacity_eq
  obtain ⟨c', hput, hfeed, hwritten, hhealthy⟩ := h.healthy.put b
  have hwritten' : c'.written = sent ++ content.push b := by
    rw [hwritten, h.written_eq, Array.push_append]
  have hconsole : Console.channel.put b c = (.ok (), c') := hput
  simp only [MemoryStreams.channel, MemoryWriter.put, hconsole]
  by_cases hroom : content.size < writerCapacity
  · rw [if_pos hroom]
    exact .same ⟨h.text_eq, hfeed.trans h.feed_eq, rfl, hwritten', hhealthy⟩
  · rw [if_neg hroom]
    refine .excused ⟨rfl, rfl, hhealthy, ?_⟩
    rw [hwritten', Array.size_append, Array.size_push]
    omega

/-- A console stays healthy, nothing that was written to it is taken back, and it never fails for
want of room. -/
theorem keeps_written (n : Nat) :
    Console.channel.Keeps (fun c => c.Healthy ∧ n ≤ c.written.size) (· ≠ .bufferFull) := by
  have hget {c : Console} (h : c.Healthy) : Console.channel.get c =
      (c.feed.next.1, { c.delivered with feed := c.feed.next.2 }) := h.get
  refine ⟨?_, ?_, ?_, ?_⟩
  · rintro c ⟨h, hle⟩
    rw [hget h]
    refine ⟨h.delivered _, ?_⟩
    show n ≤ c.delivered.written.size
    rwa [c.written_delivered]
  · rintro c b ⟨h, hle⟩
    obtain ⟨c', hput, -, hwritten, h'⟩ := h.put b
    have hput' : (Console.channel.put b c).2 = c' := congrArg Prod.snd hput
    rw [hput']
    refine ⟨h', ?_⟩
    rw [hwritten, Array.size_push]
    omega
  · rintro c e ⟨h, -⟩ herror
    rw [hget h] at herror
    obtain rfl | ⟨m, rfl⟩ := Feed.error_of_next herror
    · simp
    · simp
  · rintro c e b ⟨h, -⟩ herror
    obtain ⟨c', hput, -⟩ := h.put b
    have hput' : (Console.channel.put b c).1 = .ok () := congrArg Prod.fst hput
    cases hput'.symm.trans herror

/-- A console gives the answers of memory streams, until the memory writer is full. -/
theorem follows_console (input : Bytes) (capacity : Nat) (sent : Array UInt8) :
    MemoryStreams.channel.Follows Console.channel (Mirrors input capacity sent)
      (Outrun capacity sent) where
  get := Mirrors.get
  put := fun b h => h.put b
  lasts := by
    intro d e w
    have hkeeps := keeps_written (sent.size + capacity + 1)
    exact
      { get := fun h => ⟨h.1, h.2.1, hkeeps.get h.2.2⟩
        put := fun b h => ⟨h.1, h.2.1, hkeeps.put b h.2.2⟩
        get_error := fun _ _ => trivial
        put_error := fun _ _ _ => trivial }

/-! ## Runs of a session -/

/-- Memory streams over a text, with a writer of a capacity. -/
def MemoryStreams.over (input : Bytes) (capacity : Nat) : MemoryStreams :=
  { reader := .ofBytes input, writer := { capacity } }

/-- A run in memory has failed for want of room. -/
def LacksRoom (result : Option (Except RunError Unit × Machine MemoryStreams)) : Prop :=
  ∃ e m, result = some (.error e, m) ∧ e.cause? = some (.output, .bufferFull)

/-- A writer of this capacity has room for all that a run writes. -/
def Suffices (code : Code) (tape : Tape) (input : Bytes) (capacity : Nat) : Prop :=
  ∀ fuel, ¬LacksRoom (execute MemoryStreams.channel code fuel tape (.over input capacity))

/-- What a run in memory tells about the run of a session: the error of the run is its error, and
the bytes in memory have arrived behind those that were written before. -/
def Session.ofMemory (s : Session) (input : Bytes) (r : Except RunError Unit)
    (m : Machine MemoryStreams) : Except SessionError Unit × Session :=
  (r.mapError .run,
    { s with
      tape := m.tape
      console :=
        { feed := { bytes := input.drop m.world.reader.position }
          sink := { received := s.console.written ++ m.world.writer.content } } })

/-- Settling the output of a healthy console keeps the result of the run. -/
theorem Session.settle_of_healthy (h : c.Healthy) (result : Except SessionError Unit) :
    settle result c = (result, { feed := c.feed, sink := { received := c.written } }) := by
  rw [← h.delivered_eq]
  unfold settle
  rw [h.flush]
  cases result with
  | error e => rfl
  | ok _ => rfl

variable {s : Session}

theorem Session.execute_eq (s : Session) (fuel : Nat) (code : Code) :
    s.execute fuel code =
      (Brainfuck.execute Console.channel code fuel s.tape s.console).map fun (r, m) =>
        ((settle (r.mapError .run) m.world).1,
          { s with tape := m.tape, console := (settle (r.mapError .run) m.world).2 }) := by
  obtain ⟨settings, tape, console, store, host⟩ := s
  unfold execute
  dsimp only
  cases Brainfuck.execute Console.channel code fuel tape console with
  | none => rfl
  | some result => rfl

theorem Session.execute_mono {code : Code} {fuel fuel' : Nat}
    {result : Except SessionError Unit × Session} (h : s.execute fuel code = some result)
    (hle : fuel ≤ fuel') : s.execute fuel' code = some result := by
  rw [execute_eq] at h ⊢
  obtain ⟨res, hrun, hresult⟩ := Option.map_eq_some_iff.mp h
  rw [Brainfuck.execute_mono hrun hle, Option.map_some, hresult]

/-- A run of a session is the run in memory, unless that one fails for want of room. Then a session
that comes to its end has delivered more bytes than there was room for. -/
theorem Session.execute_cases (hhealthy : s.console.Healthy)
    (hfeed : s.console.feed = { bytes := input }) (code : Code) (capacity fuel : Nat) :
    let inMemory := Brainfuck.execute MemoryStreams.channel code fuel s.tape (.over input capacity)
    (¬LacksRoom inMemory ∧
        s.execute fuel code = inMemory.map fun (r, m) => s.ofMemory input r m) ∨
      (LacksRoom inMemory ∧ ∀ r s', s.execute fuel code = some (r, s') →
        s.console.written.size + capacity < s'.console.sink.received.size) := by
  intro inMemory
  have hstart : Mirrors input capacity s.console.written (.over input capacity) s.console :=
    ⟨rfl, hfeed, rfl, Array.append_empty.symm, hhealthy⟩
  have hagree := execute_agree (follows_console input capacity s.console.written) hstart code fuel
    s.tape
  rw [execute_eq]
  generalize hmemory : inMemory = a, hconsole : Brainfuck.execute Console.channel code fuel s.tape
    s.console = b at hagree
  change Machine.Agree _ _ inMemory b at hagree
  rw [hmemory] at hagree
  cases hagree with
  | none =>
      refine .inl ⟨?_, rfl⟩
      rintro ⟨e, m, heq, -⟩
      cases heq
  | @same r m c hmirrors =>
      refine .inl ⟨?_, ?_⟩
      · rintro ⟨e, m', heq, hcause⟩
        cases heq
        -- a healthy console does not know this error
        exact (execute_kept (keeps_written 0) ⟨hhealthy, Nat.zero_le _⟩ hconsole).cause e _ _ rfl
          hcause rfl
      · have hworld : (m.onto c).world = c := rfl
        simp only [Option.map_some, hworld, settle_of_healthy hmirrors.healthy, ofMemory,
          hmirrors.feed_eq, hmirrors.written_eq]
        rfl
  | @excused e d cause m c b hcause houtrun hlasts =>
      obtain ⟨rfl, rfl, -, -⟩ := houtrun
      refine .inr ⟨⟨e, m, rfl, hcause⟩, ?_⟩
      intro r' s' hrun
      obtain ⟨⟨r, m'⟩, rfl, hresult⟩ := Option.map_eq_some_iff.mp hrun
      obtain ⟨-, -, hhealthy', hlt⟩ := hlasts r m' rfl
      obtain ⟨-, rfl⟩ := Prod.mk.inj hresult
      rw [settle_of_healthy hhealthy']
      exact hlt

/-- A memory writer with room for the bytes that a session delivers has room enough. -/
theorem suffices_of_execute (hhealthy : s.console.Healthy)
    (hfeed : s.console.feed = { bytes := input }) {code : Code} {fuel : Nat}
    {r : Except SessionError Unit} {s' : Session} (hrun : s.execute fuel code = some (r, s'))
    (hroom : s'.console.sink.received.size ≤ s.console.written.size + capacity) :
    Suffices code s.tape input capacity := by
  rintro fuel' ⟨e, m, hmemory, hcause⟩
  -- both runs end within the larger number of instructions
  have hrun' := Session.execute_mono hrun (Nat.le_max_left fuel fuel')
  have hmemory' := execute_mono hmemory (Nat.le_max_right fuel fuel')
  obtain ⟨hroom', -⟩ | ⟨-, hlt⟩ :=
    Session.execute_cases hhealthy hfeed code capacity (max fuel fuel')
  · exact hroom' ⟨e, m, hmemory', hcause⟩
  · exact absurd hroom (Nat.not_le.mpr (hlt r s' hrun'))

/-- **Consoles and memory streams are interchangeable.** Let a session have an open console over a
sink without a limit. With any number of instructions, its run of some code ends if and only if the
run in memory does, on the same tape and input and with a writer that has room enough, and it has
the same result. It leaves the same tape and the same input, and its sink has received what the
memory writer holds, behind what was written before. A session that comes to an end shows which
writers have room enough: all those that can hold the bytes that it has delivered. -/
theorem session_executes_like_memory (s : Session) (input : Bytes) (code : Code)
    (hhealthy : s.console.Healthy) (hfeed : s.console.feed = { bytes := input }) :
    (∀ capacity, Suffices code s.tape input capacity → ∀ fuel,
      s.execute fuel code =
        (execute MemoryStreams.channel code fuel s.tape (.over input capacity)).map fun (r, m) =>
          (r.mapError .run,
            { s with
              tape := m.tape
              console :=
                { feed := { bytes := input.drop m.world.reader.position }
                  sink := { received := s.console.written ++ m.world.writer.content } } })) ∧
    ∀ fuel r s', s.execute fuel code = some (r, s') → ∀ capacity,
      s'.console.sink.received.size ≤ s.console.written.size + capacity →
        Suffices code s.tape input capacity := by
  refine ⟨?_, ?_⟩
  · intro capacity hsuffices fuel
    obtain ⟨-, hsame⟩ | ⟨hlacks, -⟩ := Session.execute_cases hhealthy hfeed code capacity fuel
    · exact hsame
    · exact absurd hlacks (hsuffices fuel)
  · intro fuel r s' hrun capacity hroom
    exact suffices_of_execute hhealthy hfeed hrun hroom

/-- A program that writes the byte it has read and then runs out of input. The byte is at the sink,
and a writer for one byte has room enough. -/
theorem session_executes_like_memory_of_echo :
    let code : Code := #[{ op := some .input }, { op := some .output }, { op := some .input }]
    let s : Session :=
      { settings := {}, tape := #[0], console := { feed := { bytes := [0x61] } }, store := .absent,
        host := {} }
    s.console.Healthy ∧ s.console.feed = { bytes := [0x61] } ∧ Suffices code s.tape [0x61] 1 ∧
      s.execute 5 code =
        some (.error (.run (.input 2 .endOfInput)),
          { s with
            tape := #[0x61]
            console := { feed := { bytes := [] }, sink := { received := #[0x61] } } }) := by
  intro code s
  have hhealthy : s.console.Healthy := ⟨rfl, rfl, rfl, rfl⟩
  have hrun : ∃ r s', s.execute 5 code = some (r, s') ∧ s'.console.sink.received.size ≤ 0 + 1 :=
    ⟨_, _, rfl, by decide⟩
  obtain ⟨hsame, hsuffices⟩ := session_executes_like_memory s [0x61] code hhealthy rfl
  obtain ⟨r, s', hs', hroom⟩ := hrun
  have hroom' := hsuffices 5 r s' hs' 1 hroom
  exact ⟨hhealthy, rfl, hroom', hsame 1 hroom' 5⟩

end Brainfuck
