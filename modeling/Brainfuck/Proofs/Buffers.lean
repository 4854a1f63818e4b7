import Brainfuck.Stream.Memory
import Mathlib.Data.List.Induction

/-!
# Memory streams over whole histories

What a memory stream does is a matter of the calls since it was last reset. A writer holds the
bytes that were offered since then, as many as it has room for; a reader has come as far in its text
as it was asked for bytes.

A writer is given here twice: by what it holds, and as a buffer that is allocated once. A reset of
the buffer moves its position and erases nothing, so that old bytes lie behind the position until
they are written over. They never show.

## Main Definitions

* `WriterCall`, `ReaderCall` — a call on a memory stream
* `MemoryWriter.afterCalls`, `MemoryReader.afterCalls` — a stream after any number of calls
* `offered`, `asked` — the bytes offered, and the calls for a byte, since the last reset
* `Buffer` — a writer as a buffer that is used again

## Main Results

* `MemoryWriter.Holds.call`, `MemoryWriter.holds_afterCalls` — what a writer holds
* `Buffer.Shows.call`, `Buffer.shows_afterCalls` — a buffer shows what a writer holds
* `MemoryReader.At.call`, `MemoryReader.at_afterCalls` — how far a reader has come
* `memory_streams_follow_history` — memory streams after any calls
-/

namespace Brainfuck

/-- The elements behind the last one of which `p` holds, or all if there is none. -/
def sinceLast {α : Type} (p : α → Bool) (xs : List α) : List α :=
  (xs.reverse.takeWhile (!p ·)).reverse

theorem sinceLast_concat_of_pos {α : Type} {p : α → Bool} {x : α} (h : p x = true) (xs : List α) :
    sinceLast p (xs ++ [x]) = [] := by
  simp [sinceLast, h]

theorem sinceLast_concat_of_neg {α : Type} {p : α → Bool} {x : α} (h : p x = false) (xs : List α) :
    sinceLast p (xs ++ [x]) = sinceLast p xs ++ [x] := by
  simp [sinceLast, h]

/-! ## Writers -/

/-- A call on a memory writer. -/
inductive WriterCall where
  | put (b : UInt8)
  | reset
  deriving DecidableEq, Repr

/-- The byte that a call offers. -/
def WriterCall.byte? : WriterCall → Option UInt8
  | put b => some b
  | reset => none

/-- The bytes offered since the last reset, taken or not. -/
def offered (calls : List WriterCall) : Bytes :=
  (sinceLast (· == .reset) calls).filterMap WriterCall.byte?

theorem offered_put (calls : List WriterCall) (b : UInt8) :
    offered (calls ++ [.put b]) = offered calls ++ [b] := by
  rw [offered, sinceLast_concat_of_neg rfl, List.filterMap_append]
  rfl

theorem offered_reset (calls : List WriterCall) : offered (calls ++ [.reset]) = [] := by
  rw [offered, sinceLast_concat_of_pos rfl]
  rfl

namespace MemoryWriter

variable {w : MemoryWriter} {capacity : Nat} {t : Bytes}

/-- The writer that a call leaves behind, whatever its answer. -/
def call (w : MemoryWriter) : WriterCall → MemoryWriter
  | .put b => (w.put b).2
  | .reset => w.reset

/-- A new writer after any number of calls. -/
def afterCalls (capacity : Nat) (calls : List WriterCall) : MemoryWriter :=
  calls.foldl call { capacity }

theorem afterCalls_concat (capacity : Nat) (calls : List WriterCall) (c : WriterCall) :
    afterCalls capacity (calls ++ [c]) = (afterCalls capacity calls).call c := by
  rw [afterCalls, List.foldl_append]
  rfl

theorem put_of_lt (h : w.content.size < w.capacity) (b : UInt8) :
    w.put b = (.ok (), { w with content := w.content.push b }) := by
  rw [put, if_pos h]

theorem put_of_le (h : w.capacity ≤ w.content.size) (b : UInt8) :
    w.put b = (.error .bufferFull, w) := by
  rw [put, if_neg (Nat.not_lt.mpr h)]

/-- A writer holds as much of a text as it has room for. -/
structure Holds (capacity : Nat) (t : Bytes) (w : MemoryWriter) : Prop where
  capacity_eq : w.capacity = capacity
  content_eq : w.content.toList = t.take capacity

theorem Holds.size_eq (h : w.Holds capacity t) : w.content.size = min capacity t.length := by
  rw [← Array.length_toList, h.content_eq, List.length_take]

theorem Holds.put (h : w.Holds capacity t) (b : UInt8) : (w.put b).2.Holds capacity (t ++ [b]) := by
  have hsize := h.size_eq
  have hcapacity := h.capacity_eq
  by_cases hroom : t.length < capacity
  · rw [put_of_lt (by omega)]
    refine ⟨hcapacity, ?_⟩
    show (w.content.push b).toList = (t ++ [b]).take capacity
    rw [Array.toList_push, h.content_eq, List.take_of_length_le (Nat.le_of_lt hroom),
      List.take_of_length_le (by rw [List.length_append]; exact hroom)]
  · -- a byte too many is not taken, and leaves no trace in the beginning that is kept
    rw [put_of_le (by omega)]
    refine ⟨hcapacity, ?_⟩
    rw [h.content_eq, List.take_append_of_le_length (Nat.not_lt.mp hroom)]

theorem Holds.reset (h : w.Holds capacity t) : w.reset.Holds capacity [] :=
  ⟨h.capacity_eq, List.take_nil.symm⟩

theorem Holds.call {calls : List WriterCall} (h : w.Holds capacity (offered calls))
    (c : WriterCall) : (w.call c).Holds capacity (offered (calls ++ [c])) := by
  cases c with
  | put b =>
      rw [offered_put]
      exact h.put b
  | reset =>
      rw [offered_reset]
      exact h.reset

/-- After any calls a writer holds what was offered since the last reset. -/
theorem holds_afterCalls (capacity : Nat) (calls : List WriterCall) :
    (afterCalls capacity calls).Holds capacity (offered calls) := by
  -- what was offered depends on the end of the calls, so the last one is taken off
  induction calls using List.reverseRecOn with
  | nil => exact ⟨rfl, List.take_nil.symm⟩
  | append_singleton calls c ih =>
      rw [afterCalls_concat]
      exact ih.call c

theorem ofCapacity_of_le (h : capacity ≤ maxBytes) : ofCapacity capacity = .ok { capacity } := by
  have hlength : checkLength 1 capacity = .ok capacity := by
    rw [checkLength, if_pos]
    · rfl
    · simp only [Bool.and_eq_true, decide_eq_true_eq]
      omega
  rw [ofCapacity, hlength]
  rfl

end MemoryWriter

/-! ## A buffer that is used again -/

/-- A buffer and the position up to which it is filled. What lies behind is left from before. -/
structure Buffer where
  cells : Array UInt8
  position : Nat
  deriving DecidableEq, Repr

namespace Buffer

variable {r : Buffer} {w : MemoryWriter}

/-- A buffer before the first call. -/
def ofCapacity (capacity : Nat) : Buffer :=
  { cells := Array.replicate capacity 0, position := 0 }

/-- Writes a byte over the one at the position. -/
def put (r : Buffer) (b : UInt8) : Except StreamError Unit × Buffer :=
  if r.position < r.cells.size then
    (.ok (), { cells := r.cells.setIfInBounds r.position b, position := r.position + 1 })
  else (.error .bufferFull, r)

/-- Goes back to the start, and erases nothing. -/
def reset (r : Buffer) : Buffer :=
  { r with position := 0 }

/-- The bytes before the position. -/
def bytes (r : Buffer) : Array UInt8 :=
  r.cells.extract 0 r.position

/-- The buffer that a call leaves behind, whatever its answer. -/
def call (r : Buffer) : WriterCall → Buffer
  | .put b => (r.put b).2
  | .reset => r.reset

/-- A new buffer after any number of calls. -/
def afterCalls (capacity : Nat) (calls : List WriterCall) : Buffer :=
  calls.foldl call (ofCapacity capacity)

/-- A buffer shows what a writer of the same capacity holds. -/
structure Shows (r : Buffer) (w : MemoryWriter) : Prop where
  size_eq : r.cells.size = w.capacity
  position_eq : r.position = w.content.size
  bytes_eq : r.bytes = w.content

theorem bytes_put (h : r.position < r.cells.size) (b : UInt8) :
    (r.put b).2.bytes = r.bytes.push b := by
  rw [put, if_pos h]
  apply Array.toList_inj.mp
  simp only [bytes, Array.toList_push, Array.toList_extract, Array.toList_setIfInBounds,
    List.extract_eq_take_drop, List.drop_zero, Nat.sub_zero]
  rw [List.take_set, List.take_succ_eq_append_getElem h]
  simp [Nat.min_eq_left (Nat.le_of_lt h)]

theorem Shows.put (h : r.Shows w) (b : UInt8) :
    (r.put b).1 = (w.put b).1 ∧ (r.put b).2.Shows (w.put b).2 := by
  have hsize := h.size_eq
  have hposition := h.position_eq
  by_cases hroom : r.position < r.cells.size
  · have hbytes := bytes_put hroom b
    rw [MemoryWriter.put_of_lt (by omega)]
    rw [Buffer.put, if_pos hroom] at hbytes ⊢
    refine ⟨rfl, ?_, ?_, ?_⟩
    · exact Array.size_setIfInBounds.trans hsize
    · show r.position + 1 = (w.content.push b).size
      rw [Array.size_push, hposition]
    · rw [hbytes, h.bytes_eq]
  · rw [MemoryWriter.put_of_le (by omega), Buffer.put, if_neg hroom]
    exact ⟨rfl, h⟩

theorem Shows.reset (h : r.Shows w) : r.reset.Shows w.reset :=
  ⟨h.size_eq, rfl, Array.extract_empty_of_stop_le_start (Nat.le_refl 0)⟩

theorem Shows.call (h : r.Shows w) (c : WriterCall) : (r.call c).Shows (w.call c) := by
  cases c with
  | put b => exact (h.put b).2
  | reset => exact h.reset

theorem Shows.calls (h : r.Shows w) (calls : List WriterCall) :
    (calls.foldl Buffer.call r).Shows (calls.foldl MemoryWriter.call w) := by
  induction calls generalizing r w with
  | nil => exact h
  | cons c calls ih => exact ih (h.call c)

/-- A buffer that is used again shows what a writer holds. -/
theorem shows_afterCalls (capacity : Nat) (calls : List WriterCall) :
    (afterCalls capacity calls).Shows (MemoryWriter.afterCalls capacity calls) := by
  refine Shows.calls ⟨Array.size_replicate, rfl, ?_⟩ calls
  exact Array.extract_empty_of_stop_le_start (Nat.le_refl 0)

end Buffer

/-! ## Readers -/

/-- A call on a memory reader. -/
inductive ReaderCall where
  | get
  | rewind
  deriving DecidableEq, Repr

/-- How often a byte was asked for since the last rewind, in vain or not. -/
def asked (calls : List ReaderCall) : Nat :=
  (sinceLast (· == .rewind) calls).length

theorem asked_get (calls : List ReaderCall) : asked (calls ++ [.get]) = asked calls + 1 := by
  rw [asked, sinceLast_concat_of_neg rfl, List.length_append]
  rfl

theorem asked_rewind (calls : List ReaderCall) : asked (calls ++ [.rewind]) = 0 := by
  rw [asked, sinceLast_concat_of_pos rfl]
  rfl

namespace MemoryReader

variable {r : MemoryReader} {t : Bytes} {n : Nat}

/-- The reader that a call leaves behind, whatever its answer. -/
def call (r : MemoryReader) : ReaderCall → MemoryReader
  | .get => r.get.2
  | .rewind => r.rewind

/-- A new reader after any number of calls. -/
def afterCalls (t : Bytes) (calls : List ReaderCall) : MemoryReader :=
  calls.foldl call (ofBytes t)

theorem afterCalls_concat (t : Bytes) (calls : List ReaderCall) (c : ReaderCall) :
    afterCalls t (calls ++ [c]) = (afterCalls t calls).call c := by
  rw [afterCalls, List.foldl_append]
  rfl

/-- A reader has been asked for `n` bytes of a text. It stops at the end. -/
structure At (t : Bytes) (n : Nat) (r : MemoryReader) : Prop where
  text_eq : r.text = t.toArray
  position_eq : r.position = min n t.length

theorem At.get_of_lt (h : r.At t n) {b : UInt8} (hb : t[n]? = some b) :
    r.get = (.ok b, { r with position := n + 1 }) := by
  obtain ⟨hlt, -⟩ := List.getElem?_eq_some_iff.mp hb
  have hposition : r.position = n := by
    rw [h.position_eq]
    exact Nat.min_eq_left (Nat.le_of_lt hlt)
  have hfound : r.text[r.position]? = some b := by
    rw [h.text_eq, hposition, List.getElem?_toArray, hb]
  simp only [MemoryReader.get, hfound]
  rw [hposition]

theorem At.get_of_le (h : r.At t n) (hn : t.length ≤ n) : r.get = (.error .endOfInput, r) := by
  have hfound : r.text[r.position]? = none := by
    rw [h.text_eq, h.position_eq, Nat.min_eq_right hn, List.getElem?_toArray]
    exact List.getElem?_eq_none (Nat.le_refl _)
  simp only [MemoryReader.get, hfound]

theorem At.get (h : r.At t n) : r.get.2.At t (n + 1) := by
  by_cases hn : n < t.length
  · rw [h.get_of_lt (List.getElem?_eq_getElem hn)]
    exact ⟨h.text_eq, (Nat.min_eq_left hn).symm⟩
  · have hle := Nat.not_lt.mp hn
    rw [h.get_of_le hle]
    refine ⟨h.text_eq, ?_⟩
    rw [h.position_eq, Nat.min_eq_right hle, Nat.min_eq_right (Nat.le_succ_of_le hle)]

theorem At.rewind (h : r.At t n) : r.rewind.At t 0 :=
  ⟨h.text_eq, (Nat.zero_min _).symm⟩

theorem At.call {calls : List ReaderCall} (h : r.At t (asked calls)) (c : ReaderCall) :
    (r.call c).At t (asked (calls ++ [c])) := by
  cases c with
  | get =>
      rw [asked_get]
      exact h.get
  | rewind =>
      rw [asked_rewind]
      exact h.rewind

/-- After any calls a reader is where the calls since the last rewind have led it. -/
theorem at_afterCalls (t : Bytes) (calls : List ReaderCall) :
    (afterCalls t calls).At t (asked calls) := by
  induction calls using List.reverseRecOn with
  | nil => exact ⟨rfl, (Nat.zero_min _).symm⟩
  | append_singleton calls c ih =>
      rw [afterCalls_concat]
      exact ih.call c

end MemoryReader

/-- **Memory streams follow the calls since the last reset.** A new writer can be had with any room
up to what memory can hold. Whatever is put into it and however often it is reset, it holds no more
bytes than it has room for, and these are the first of those that were offered since the last
reset. The next byte is refused if and only if the writer holds as many bytes as it can, and then it
stays as it is. A buffer that is allocated once and written over after a reset gives the same
answers, stays as it is when it refuses a byte, and shows the same bytes.

However often a new reader is asked for a byte or rewound, its next answer is the byte of the text
behind as many bytes as it was asked for since the last rewind. If the text has ended by then, it
answers so and stays as it is. -/
theorem memory_streams_follow_history :
    (∀ capacity ≤ maxBytes, MemoryWriter.ofCapacity capacity = .ok { capacity }) ∧
    (∀ (capacity : Nat) (calls : List WriterCall),
      let w := MemoryWriter.afterCalls capacity calls
      let r := Buffer.afterCalls capacity calls
      w.content.size ≤ capacity ∧
      w.content.toList = (offered calls).take capacity ∧
      (∀ b, (w.content.size < capacity → (w.put b).1 = .ok ()) ∧
        (w.content.size = capacity → w.put b = (.error .bufferFull, w))) ∧
      r.position = w.content.size ∧ r.bytes = w.content ∧
      ∀ b, (r.put b).1 = (w.put b).1 ∧ (r.position = capacity → (r.put b).2 = r)) ∧
    ∀ (t : Bytes) (calls : List ReaderCall),
      let r := MemoryReader.afterCalls t calls
      (∀ b, t[asked calls]? = some b → r.get.1 = .ok b) ∧
      (t.length ≤ asked calls → r.get = (.error .endOfInput, r)) := by
  refine ⟨fun capacity => MemoryWriter.ofCapacity_of_le, ?_, ?_⟩
  · intro capacity calls w r
    have hholds : w.Holds capacity (offered calls) := MemoryWriter.holds_afterCalls capacity calls
    have hshows : r.Shows w := Buffer.shows_afterCalls capacity calls
    have hcapacity := hholds.capacity_eq
    refine ⟨?_, hholds.content_eq, ?_, hshows.position_eq, hshows.bytes_eq, ?_⟩
    · rw [hholds.size_eq]
      exact Nat.min_le_left _ _
    · intro b
      constructor
      · intro hroom
        rw [MemoryWriter.put_of_lt (by omega)]
      · intro hfull
        exact MemoryWriter.put_of_le (by omega) b
    · intro b
      refine ⟨(hshows.put b).1, ?_⟩
      intro hfull
      have hsize := hshows.size_eq
      rw [Buffer.put, if_neg (by omega)]
  · intro t calls r
    have hat : r.At t (asked calls) := MemoryReader.at_afterCalls t calls
    refine ⟨?_, hat.get_of_le⟩
    intro b hb
    rw [hat.get_of_lt hb]

/-- A writer with room for two bytes is filled, refuses a byte, and takes one after a reset. The
buffer then still has an old byte behind its position. -/
theorem memory_streams_follow_history_of_reused_buffer :
    let calls : List WriterCall := [.put 1, .put 2, .put 3, .reset, .put 4]
    (Buffer.afterCalls 2 calls).cells = #[4, 2] ∧
      (Buffer.afterCalls 2 calls).bytes = (MemoryWriter.afterCalls 2 calls).content ∧
      (MemoryWriter.afterCalls 2 calls).content.toList = [4] := by
  intro calls
  obtain ⟨-, hwriter, -⟩ := memory_streams_follow_history
  obtain ⟨-, hcontent, -, -, hbytes, -⟩ := hwriter 2 calls
  exact ⟨rfl, hbytes, hcontent⟩

end Brainfuck
