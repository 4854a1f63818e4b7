import Brainfuck.Proofs.Streams
import Brainfuck.Stream.Console

/-!
# Causality of the input

A program knows no more of its input than it has read. What follows the last byte that it reads
changes nothing, and when it meets the end of the input, what it has written by then is written on
every longer input as well. Both hold for every kind of writer that takes nothing back.

## Main Definitions

* `Writer` — a writer of any kind, and what was written to it
* `MemoryWriter.asWriter`, `Console.asWriter` — the writers of this library
* `Writer.channel` — a memory reader and such a writer as the ends of a program
* `Behind`, `Starved` — a text and a longer one, before and after the shorter one has ended

## Main Results

* `execute_memoryStreams` — memory streams are a case of `Writer.channel`
* `Writer.follows_longer` — a longer text gives the answers of a shorter one, until that one ends
* `Writer.execute_longer`, `Writer.execute_shorter` — programs on a longer and on a shorter text
* `input_is_causal` — what a program knows of its input
-/

namespace Brainfuck

variable {σ : Type}

/-- A writer of any kind. What was written to it is not taken back. -/
structure Writer (σ : Type) where
  put : UInt8 → σ → Except StreamError Unit × σ
  /-- The bytes that were written. -/
  output : σ → Bytes
  grows : ∀ b w, output w <+: output (put b w).2

/-! ## Writers of memory and of consoles -/

theorem MemoryWriter.content_put (w : MemoryWriter) (b : UInt8) :
    w.content.toList <+: (w.put b).2.content.toList := by
  obtain ⟨capacity, content⟩ := w
  unfold MemoryWriter.put
  by_cases hroom : content.size < capacity
  · simp [hroom]
  · simp [hroom]

/-- A memory writer, whose content is what was written. -/
def MemoryWriter.asWriter : Writer MemoryWriter where
  put := fun b w => w.put b
  output := fun w => w.content.toList
  grows := fun b w => w.content_put b

/-- A delivery adds to what the sink has received. -/
theorem Console.received_flush (c : Console) :
    c.sink.received.toList <+: c.flush.2.sink.received.toList := by
  obtain ⟨feed, ⟨pending, failure, closed, muted⟩, sink⟩ := c
  unfold flush
  cases failure with
  | some e => exact List.prefix_rfl
  | none =>
      by_cases hempty : pending.isEmpty = true
      · simp [hempty]
      cases muted with
      | true => simp [hempty]
      | false =>
          by_cases htaken : sink.room pending.size = pending.size
          · simp [hempty, htaken, Sink.write]
          · simp [hempty, htaken, Sink.write]

theorem Console.received_put (c : Console) (b : UInt8) :
    c.sink.received.toList <+: (c.put b).2.sink.received.toList := by
  have hflush := c.received_flush
  unfold put
  split
  · exact List.prefix_rfl
  · split
    · exact List.prefix_rfl
    · split
      · exact List.prefix_rfl
      · generalize c.flush = result at hflush
        rcases result with ⟨e | _, c'⟩
        · exact hflush
        · exact hflush

/-- The writer of a console. What counts is what its sink has received. -/
def Console.asWriter : Writer Console where
  put := fun b c => c.put b
  output := fun c => c.sink.received.toList
  grows := fun b c => c.received_put b

/-! ## A memory reader beside a writer -/

/-- A memory reader and a writer as the ends of a program. -/
def Writer.channel (writer : Writer σ) : Channel (MemoryReader × σ) where
  get := fun (reader, w) =>
    let (r, reader) := reader.get
    (r, reader, w)
  put := fun b (reader, w) =>
    let (r, w) := writer.put b w
    (r, reader, w)

/-- Memory streams are a memory reader and a memory writer, side by side. -/
theorem execute_memoryStreams (code : Code) (fuel : Nat) (tape : Tape) (reader : MemoryReader)
    (writer : MemoryWriter) :
    execute MemoryStreams.channel code fuel tape { reader, writer } =
      (execute MemoryWriter.asWriter.channel code fuel tape (reader, writer)).map fun (r, m) =>
        (r, m.onto { reader := m.world.1, writer := m.world.2 }) := by
  have hfollows : MemoryWriter.asWriter.channel.Follows MemoryStreams.channel
      (fun w w' => w' = { reader := w.1, writer := w.2 }) fun _ _ _ _ => False := by
    refine ⟨?_, ?_, ?_⟩
    · rintro w _ rfl
      exact .same rfl
    · rintro w _ b rfl
      exact .same rfl
    · intro d e w
      constructor <;> intros <;> trivial
  have hagree := execute_agree hfollows rfl code fuel tape (w := (reader, writer))
  generalize execute MemoryWriter.asWriter.channel code fuel tape (reader, writer) = a,
    execute MemoryStreams.channel code fuel tape { reader, writer } = b at hagree
  cases hagree with
  | none => rfl
  | same hw =>
      subst hw
      rfl
  | excused _ hfalse _ => exact hfalse.elim

/-! ## A shorter and a longer text -/

/-- The same point of a run on `text` and of one on `text ++ more`. -/
structure Behind (text more : Bytes) (w w' : MemoryReader × σ) : Prop where
  text_eq : w.1.text = text.toArray
  position_le : w.1.position ≤ text.length
  eq_longer : w' = ({ text := (text ++ more).toArray, position := w.1.position }, w.2)

/-- The shorter text has ended, and a byte of the longer one has been read that is beyond it. What
was written by then is not taken back. -/
structure Starved (writer : Writer σ) (text : Bytes) (d : Direction) (e : StreamError)
    (w w' : MemoryReader × σ) : Prop where
  direction_eq : d = .input
  error_eq : e = .endOfInput
  length_lt : text.length < w'.1.position
  prefix_output : writer.output w.2 <+: writer.output w'.2

namespace Writer

variable {writer : Writer σ} {text more : Bytes}

/-- A read gives the byte at its position and goes on, or it fails at the end of the text. -/
theorem get_cases (writer : Writer σ) (w : MemoryReader × σ) :
    (∃ b, w.1.position < w.1.text.size ∧ writer.channel.get w =
      (.ok b, { w.1 with position := w.1.position + 1 }, w.2)) ∨
    (w.1.text.size ≤ w.1.position ∧ writer.channel.get w = (.error .endOfInput, w)) := by
  obtain ⟨⟨bytes, position⟩, w⟩ := w
  simp only [channel, MemoryReader.get]
  cases hbyte : bytes[position]? with
  | some b =>
      obtain ⟨hlt, -⟩ := Array.getElem?_eq_some_iff.mp hbyte
      exact .inl ⟨b, hlt, rfl⟩
  | none => exact .inr ⟨Array.getElem?_eq_none_iff.mp hbyte, rfl⟩

theorem position_get (writer : Writer σ) (w : MemoryReader × σ) :
    w.1.position ≤ (writer.channel.get w).2.1.position := by
  obtain ⟨b, -, hget⟩ | ⟨-, hget⟩ := writer.get_cases w
  · rw [hget]
    exact Nat.le_succ _
  · exact Nat.le_of_eq (by rw [hget])

/-- A program stays within the text that it reads. -/
theorem keeps_text (writer : Writer σ) (text : Bytes) :
    writer.channel.Keeps (fun w => w.1.text = text.toArray ∧ w.1.position ≤ text.length)
      fun _ => True := by
  refine ⟨?_, fun _ h => h, fun _ _ => trivial, fun _ _ _ => trivial⟩
  rintro w ⟨htext, hle⟩
  obtain ⟨b, hlt, hget⟩ | ⟨-, hget⟩ := writer.get_cases w
  · rw [hget]
    rw [htext, List.size_toArray] at hlt
    exact ⟨htext, hlt⟩
  · rw [hget]
    exact ⟨htext, hle⟩

theorem get_longer {w w' : MemoryReader × σ} (h : Behind text more w w') :
    SameAnswer (Behind text more) (Starved writer text .input) (writer.channel.get w)
      (writer.channel.get w') := by
  obtain ⟨⟨bytes, position⟩, w⟩ := w
  obtain ⟨rfl, hle, rfl⟩ := h
  simp only [channel, MemoryReader.get, List.getElem?_toArray] at hle ⊢
  obtain hlt | rfl := Nat.lt_or_eq_of_le hle
  · rw [List.getElem?_append_left hlt, List.getElem?_eq_getElem hlt]
    exact .same ⟨rfl, hlt, rfl⟩
  · rw [List.getElem?_append_right hle, List.getElem?_eq_none hle, Nat.sub_self]
    cases more with
    | nil => exact .same ⟨rfl, hle, rfl⟩
    | cons b rest => exact .excused ⟨rfl, rfl, Nat.lt_succ_self _, List.prefix_rfl⟩

/-- A longer text gives the answers of a shorter one, until that one ends. -/
theorem follows_longer (writer : Writer σ) (text more : Bytes) :
    writer.channel.Follows writer.channel (Behind text more) (Starved writer text) where
  get := get_longer
  put := by
    rintro w _ b ⟨htext, hle, rfl⟩
    exact .same ⟨htext, hle, rfl⟩
  lasts := by
    intro d e w
    refine ⟨?_, ?_, fun _ _ => trivial, fun _ _ _ => trivial⟩
    · rintro w' ⟨hd, he, hlt, hprefix⟩
      exact ⟨hd, he, Nat.lt_of_lt_of_le hlt (writer.position_get w'), hprefix⟩
    · rintro w' b ⟨hd, he, hlt, hprefix⟩
      exact ⟨hd, he, hlt, hprefix.trans (writer.grows b w'.2)⟩

/-! ## Programs -/

variable {code : Code} {fuel : Nat} {tape : Tape} {w : σ} {r : Except RunError Unit}
  {m : Machine (MemoryReader × σ)}

theorem execute_agree_longer (writer : Writer σ) (code : Code) (fuel : Nat) (tape : Tape) (w : σ)
    (text more : Bytes) :
    Machine.Agree (Behind text more) (Starved writer text)
      (execute writer.channel code fuel tape (.ofBytes text, w))
      (execute writer.channel code fuel tape (.ofBytes (text ++ more), w)) :=
  execute_agree (writer.follows_longer text more) ⟨rfl, Nat.zero_le _, rfl⟩ code fuel tape

/-- A program that does not meet the end of its input does the same on a longer one. -/
theorem execute_longer
    (hrun : execute writer.channel code fuel tape (.ofBytes text, w) = some (r, m))
    (hend : ∀ index, r ≠ .error (.input index .endOfInput)) (more : Bytes) :
    execute writer.channel code fuel tape (.ofBytes (text ++ more), w) =
      some (r, { m with
        world := ({ text := (text ++ more).toArray, position := m.world.1.position },
          m.world.2) }) := by
  have hagree := writer.execute_agree_longer code fuel tape w text more
  rw [hrun] at hagree
  generalize execute writer.channel code fuel tape (.ofBytes (text ++ more), w) = b at hagree
  cases hagree with
  | same hbehind =>
      obtain ⟨-, -, rfl⟩ := hbehind
      rfl
  | excused hcause hstarved _ =>
      obtain ⟨rfl, rfl, -, -⟩ := hstarved
      obtain ⟨index, rfl⟩ := RunError.eq_failure_of_cause? hcause
      exact absurd rfl (hend index)

/-- A program does the same on a shorter input, if that has all the bytes that it reads. -/
theorem execute_shorter
    (hrun : execute writer.channel code fuel tape (.ofBytes (text ++ more), w) = some (r, m))
    (hle : m.world.1.position ≤ text.length) :
    execute writer.channel code fuel tape (.ofBytes text, w) =
      some (r, { m with
        world := ({ text := text.toArray, position := m.world.1.position }, m.world.2) }) := by
  have hagree := writer.execute_agree_longer code fuel tape w text more
  rw [hrun] at hagree
  generalize execute writer.channel code fuel tape (.ofBytes text, w) = a at hagree
  cases hagree with
  | @same r m₁ w' hbehind =>
      obtain ⟨tape₁, pointer, counter, ⟨bytes, position⟩, w₁⟩ := m₁
      obtain ⟨rfl, -, rfl⟩ := hbehind
      rfl
  | excused _ _ hlasts => exact absurd (hlasts r m rfl).length_lt (Nat.not_lt.mpr hle)

theorem position_le_length
    (hrun : execute writer.channel code fuel tape (.ofBytes text, w) = some (r, m)) :
    m.world.1.position ≤ text.length :=
  (execute_kept (writer.keeps_text text) ⟨rfl, Nat.zero_le _⟩ hrun).world.2

/-- Inputs are the same to a program that reads the same bytes of them. -/
theorem execute_of_take_eq {text' : Bytes}
    (hrun : execute writer.channel code fuel tape (.ofBytes text, w) = some (r, m))
    (hend : ∀ index, r ≠ .error (.input index .endOfInput))
    (htake : text'.take m.world.1.position = text.take m.world.1.position) :
    execute writer.channel code fuel tape (.ofBytes text', w) =
      some (r, { m with
        world := ({ text := text'.toArray, position := m.world.1.position }, m.world.2) }) := by
  have hlength := List.length_take_of_le (position_le_length hrun)
  -- the bytes that are read are a text of their own
  rw [← List.take_append_drop m.world.1.position text] at hrun
  have hread := execute_shorter hrun (Nat.le_of_eq hlength.symm)
  have hlonger := execute_longer hread hend (text'.drop m.world.1.position)
  rwa [← htake, List.take_append_drop] at hlonger

variable {index : Nat}

/-- A program that meets the end of its input has read all of it. -/
theorem position_of_endOfInput
    (hrun : execute writer.channel code fuel tape (.ofBytes text, w) =
      some (.error (.input index .endOfInput), m)) : m.world.1.position = text.length := by
  obtain ⟨m₁, x, -, ⟨htext, hle⟩, hfails⟩ :=
    execute_failed (writer.keeps_text text) ⟨rfl, Nat.zero_le _⟩ hrun rfl
  cases hfails with
  | input _ hget =>
      obtain ⟨b, -, hok⟩ | ⟨hsize, herror⟩ := writer.get_cases m₁.world
      · cases hget.symm.trans hok
      · cases hget.symm.trans herror
        rw [htext, List.size_toArray] at hsize
        exact Nat.le_antisymm hle hsize

/-- What a program has written when it meets the end of its input, it writes on a longer one as
well. -/
theorem output_prefix_of_endOfInput {fuel' : Nat} {r' : Except RunError Unit}
    {m' : Machine (MemoryReader × σ)}
    (hrun : execute writer.channel code fuel tape (.ofBytes text, w) =
      some (.error (.input index .endOfInput), m))
    (hrun' : execute writer.channel code fuel' tape (.ofBytes (text ++ more), w) = some (r', m')) :
    writer.output m.world.2 <+: writer.output m'.world.2 := by
  have hagree := writer.execute_agree_longer code (max fuel fuel') tape w text more
  rw [execute_mono hrun (Nat.le_max_left _ _), execute_mono hrun' (Nat.le_max_right _ _)] at hagree
  cases hagree with
  | same hbehind =>
      rw [hbehind.eq_longer]
      exact List.prefix_rfl
  | excused _ _ hlasts => exact (hlasts r' m' rfl).prefix_output

end Writer

/-- Causality of the input, for every kind of writer, memory writers among them. A program that ends
without having met the end of its input does the same on every input with the same bytes up to
there. One that meets the end has read all of the input, and its output is the beginning of what it
writes on any longer input on which it ends. -/
theorem input_is_causal (code : Code) (tape : Tape) :
    (∀ fuel reader writer, execute MemoryStreams.channel code fuel tape { reader, writer } =
      (execute MemoryWriter.asWriter.channel code fuel tape (reader, writer)).map fun (r, m) =>
        (r, m.onto { reader := m.world.1, writer := m.world.2 })) ∧
    ∀ {σ : Type} (writer : Writer σ) (w : σ) (s : Bytes) (fuel : Nat) (r : Except RunError Unit)
      (m : Machine (MemoryReader × σ)),
      execute writer.channel code fuel tape (.ofBytes s, w) = some (r, m) →
      ((∀ index, r ≠ .error (.input index .endOfInput)) →
        m.world.1.position ≤ s.length ∧
        ∀ s' : Bytes, s'.take m.world.1.position = s.take m.world.1.position →
          execute writer.channel code fuel tape (.ofBytes s', w) =
            some (r, { m with
              world := ({ text := s'.toArray, position := m.world.1.position }, m.world.2) })) ∧
      (∀ index, r = .error (.input index .endOfInput) →
        m.world.1.position = s.length ∧
        ∀ t fuel' r' m',
          execute writer.channel code fuel' tape (.ofBytes (s ++ t), w) = some (r', m') →
          writer.output m.world.2 <+: writer.output m'.world.2) := by
  refine ⟨fun fuel => execute_memoryStreams code fuel tape, ?_⟩
  intro σ writer w s fuel r m hrun
  refine ⟨?_, ?_⟩
  · intro hend
    refine ⟨Writer.position_le_length hrun, ?_⟩
    intro s' htake
    exact Writer.execute_of_take_eq hrun hend htake
  · rintro index rfl
    refine ⟨Writer.position_of_endOfInput hrun, ?_⟩
    intro t fuel' r' m' hrun'
    exact Writer.output_prefix_of_endOfInput hrun hrun'

/-- A program that echoes its input up to a zero byte. On a console it leaves what follows that byte
alone. In memory it meets the end of an input without such a byte, inside its loop, and goes on if
there is more. -/
theorem input_is_causal_of_echo :
    let code : Code := #[{ op := some .input }, { op := some .loopStart, target := 5 },
      { op := some .output }, { op := some .input }, { op := some .loopEnd, target := 1 }]
    (∃ m, execute Console.asWriter.channel code 6 #[0]
          (.ofBytes [0x61, 0, 0x62], { feed := .empty }) = some (.ok (), m) ∧
      (∀ index, (.ok () : Except RunError Unit) ≠ .error (.input index .endOfInput)) ∧
      m.world.1.position = 2 ∧
      execute Console.asWriter.channel code 6 #[0] (.ofBytes [0x61, 0], { feed := .empty }) =
        some (.ok (), { m with world := ({ text := #[0x61, 0], position := 2 }, m.world.2) })) ∧
    ∃ m m', execute MemoryWriter.asWriter.channel code 10 #[0]
          (.ofBytes [0x61], { capacity := 2 }) = some (.error (.input 3 .endOfInput), m) ∧
      execute MemoryWriter.asWriter.channel code 10 #[0]
          (.ofBytes ([0x61] ++ [0x62, 0]), { capacity := 2 }) = some (.ok (), m') ∧
      m.world.1.position = 1 ∧ m.world.2.content.toList <+: m'.world.2.content.toList := by
  intro code
  obtain ⟨-, hcausal⟩ := input_is_causal code #[0]
  have hok : ∀ index, (.ok () : Except RunError Unit) ≠ .error (.input index .endOfInput) := by
    intro index h
    cases h
  have hconsole : ∃ m, execute Console.asWriter.channel code 6 #[0]
      (.ofBytes [0x61, 0, 0x62], { feed := .empty }) = some (.ok (), m) ∧
        m.world.1.position = 2 := ⟨_, rfl, rfl⟩
  have hmemory : ∃ m m', execute MemoryWriter.asWriter.channel code 10 #[0]
        (.ofBytes [0x61], { capacity := 2 }) = some (.error (.input 3 .endOfInput), m) ∧
      execute MemoryWriter.asWriter.channel code 10 #[0]
        (.ofBytes ([0x61] ++ [0x62, 0]), { capacity := 2 }) = some (.ok (), m') :=
    ⟨_, _, rfl, rfl⟩
  refine ⟨?_, ?_⟩
  · obtain ⟨m, hrun, hposition⟩ := hconsole
    obtain ⟨-, hsame⟩ := (hcausal _ _ _ _ _ _ hrun).1 hok
    rw [hposition] at hsame
    exact ⟨m, hrun, hok, hposition, hsame [0x61, 0] rfl⟩
  · obtain ⟨m, m', hrun, hlonger⟩ := hmemory
    obtain ⟨hposition, hprefix⟩ := (hcausal _ _ _ _ _ _ hrun).2 3 rfl
    exact ⟨m, m', hrun, hlonger, hposition, hprefix _ _ _ _ hlonger⟩

end Brainfuck
