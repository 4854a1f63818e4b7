import Brainfuck.Proofs.Disassembly
import Brainfuck.Proofs.Watching
import Brainfuck.Stepper
import Mathlib.Logic.Function.Iterate

/-!
# Keys

A stepper reads keys until one has a meaning. Which instruction it ends a run at depends on the keys
with a meaning alone: it lets one instruction pass for every key that asks for a step, and the first
other key decides about the rest of the run.

## Main Definitions

* `stepKeys`, `resumeKeys`, `quitKeys` — the keys with a meaning
* `Stepper.stepLines` — the lines of a text that are no questions
* `Stepper.Shows` — the text of a stepper that has shown some instructions
* `Stepper.Awaits` — a stepper between two instructions of a run
* `Stepper.awaitedNext` — the keys that are left for the next instruction

## Main Results

* `Sink.print_print` — texts on a sink
* `Stepper.Shows.exists_stepLines` — the bytes of that text
* `Stepper.ask_answered` — how a question is answered
* `Stepper.Awaits.step_of_quit`, `Stepper.Awaits.step_of_ne_quit` — one instruction
* `Stepper.exists_awaits_of_watcherAt` — any number of instructions
* `stepper_follows_keys` — which instructions are executed, and how the run ends
-/

namespace Brainfuck

/-! ## Keys with a meaning -/

/-- The keys that ask for one step: `s`, a carriage return, a line feed and a space. -/
def stepKeys : Bytes :=
  [0x73, 0x0D, 0x0A, 0x20]

/-- The key that asks to go on without questions: `c`. -/
def resumeKeys : Bytes :=
  [0x63]

/-- The keys that ask to end the run: `q` and the code of an interrupt. -/
def quitKeys : Bytes :=
  [0x71, 0x03]

/-- The keys with a meaning. -/
def knownKeys : Bytes :=
  stepKeys ++ resumeKeys ++ quitKeys

variable {key : UInt8}

theorem KeyMeaning.ofKey?_of_mem_stepKeys (h : key ∈ stepKeys) : ofKey? key = some .step := by
  simp only [stepKeys, List.mem_cons, List.not_mem_nil, or_false] at h
  obtain rfl | rfl | rfl | rfl := h <;> rfl

theorem KeyMeaning.ofKey?_of_mem_resumeKeys (h : key ∈ resumeKeys) :
    ofKey? key = some .resume := by
  cases List.mem_singleton.mp h
  rfl

theorem KeyMeaning.ofKey?_of_mem_quitKeys (h : key ∈ quitKeys) : ofKey? key = some .quit := by
  simp only [quitKeys, List.mem_cons, List.not_mem_nil, or_false] at h
  obtain rfl | rfl := h <;> rfl

theorem KeyMeaning.ofKey?_of_not_mem (h : key ∉ knownKeys) : ofKey? key = none := by
  simp only [knownKeys, stepKeys, resumeKeys, quitKeys, List.cons_append, List.nil_append,
    List.mem_cons, List.not_mem_nil, or_false, not_or] at h
  simp [ofKey?, h]

theorem not_mem_quitKeys_of_mem_stepKeys (h : key ∈ stepKeys) : key ∉ quitKeys := by
  intro hquit
  cases (KeyMeaning.ofKey?_of_mem_stepKeys h).symm.trans (KeyMeaning.ofKey?_of_mem_quitKeys hquit)

theorem not_mem_quitKeys_of_mem_resumeKeys (h : key ∈ resumeKeys) : key ∉ quitKeys := by
  intro hquit
  cases (KeyMeaning.ofKey?_of_mem_resumeKeys h).symm.trans (KeyMeaning.ofKey?_of_mem_quitKeys hquit)

theorem not_mem_stepKeys_of_mem_resumeKeys (h : key ∈ resumeKeys) : key ∉ stepKeys := by
  intro hstep
  cases (KeyMeaning.ofKey?_of_mem_resumeKeys h).symm.trans (KeyMeaning.ofKey?_of_mem_stepKeys hstep)

/-! ## Texts on a sink -/

namespace Sink

theorem print_of_limit (limit : Nat) (received : Array UInt8) (t : Bytes) :
    (⟨some limit, received⟩ : Sink).print t =
      ⟨some limit, received ++ (t.take (limit - received.size)).toArray⟩ := by
  simp only [print, write, room, List.extract_toArray, List.extract_eq_take_drop, List.drop_zero,
    Nat.sub_zero, List.size_toArray]
  rw [Nat.min_comm, ← List.take_eq_take_min]

theorem print_of_no_limit (received : Array UInt8) (t : Bytes) :
    (⟨none, received⟩ : Sink).print t = ⟨none, received ++ t.toArray⟩ := by
  simp [print, write, room]

/-- Two texts that are printed one after the other arrive like one text. -/
theorem print_print (sink : Sink) (t u : Bytes) : (sink.print t).print u = sink.print (t ++ u) := by
  obtain ⟨_ | limit, received⟩ := sink
  · simp [print_of_no_limit]
  · have hroom : limit - (received ++ (t.take (limit - received.size)).toArray).size =
        limit - received.size - t.length := by
      simp only [Array.size_append, List.size_toArray, List.length_take]
      omega
    rw [print_of_limit, print_of_limit, print_of_limit, hroom, List.take_append]
    simp

theorem received_print {sink : Sink} (h : sink.limit = none) (t : Bytes) :
    (sink.print t).received.toList = sink.received.toList ++ t := by
  obtain ⟨limit, received⟩ := sink
  obtain rfl : limit = none := h
  rw [print_of_no_limit]
  simp

theorem print_nil (sink : Sink) : sink.print [] = sink := by
  obtain ⟨_ | limit, received⟩ := sink
  · simp [print_of_no_limit]
  · simp [print_of_limit]

end Sink

namespace Stepper

/-! ## What is shown -/

/-- The sink after a number of questions. -/
def asked : Nat → Sink → Sink
  | 0, shown => shown
  | n + 1, shown => asked n (shown.print (question ++ [0x0A]))

/-- The sink `shown` has got, after what was in `before`, a line for every instruction of `seen`,
each followed by some questions. -/
inductive Shows (before : Sink) : List Snapshot → Sink → Prop where
  | nil : Shows before [] before
  | snoc {seen : List Snapshot} {shown : Sink} (h : Shows before seen shown) (x : Snapshot)
      (questions : Nat) :
      Shows before (seen ++ [x]) (asked questions (shown.print (stepText x ++ [0x0A])))

/-- The lines of a text that are no questions, each with its line feed. -/
def stepLines (t : Bytes) : List Bytes :=
  (linesOf t).filter (· ≠ question ++ [0x0A])

/-- Questions are lines of their own. -/
theorem asked_eq (n : Nat) (sink : Sink) :
    asked n sink = sink.print ((List.replicate n question).flatMap (· ++ [0x0A])) := by
  induction n generalizing sink with
  | zero => exact sink.print_nil.symm
  | succ n ih => rw [asked, ih, Sink.print_print, List.replicate_succ, List.flatMap_cons]

theorem lineFeed_not_mem_position (p : Position) : 0x0A ∉ p.toText := by
  unfold Position.toText
  split
  · simp only [List.mem_append, List.mem_cons, not_or]
    exact ⟨lineFeed_not_mem_signed _, by decide, lineFeed_not_mem_signed _⟩
  · decide

theorem lineFeed_not_mem_stepText (x : Snapshot) : 0x0A ∉ stepText x := by
  simp only [stepText, padLeft, List.mem_append, not_or]
  exact ⟨⟨⟨⟨⟨⟨⟨⟨⟨by simp [List.mem_replicate], lineFeed_not_mem_signed _⟩, by decide⟩,
    lineFeed_not_mem_padRight (lineFeed_not_mem_operationName _) _⟩, by decide⟩,
    lineFeed_not_mem_padRight (lineFeed_not_mem_position _) _⟩, by decide⟩,
    lineFeed_not_mem_padRight (lineFeed_not_mem_signed _) _⟩, by decide⟩,
    lineFeed_not_mem_signed _⟩

/-- The text of an instruction has an equals sign in it, a question has none. -/
theorem stepText_ne_question (x : Snapshot) : stepText x ≠ question := by
  intro h
  have hmem : 0x3D ∈ stepText x := by
    simp only [stepText, List.mem_append]
    exact .inl (.inr (by decide))
  rw [h] at hmem
  exact absurd hmem (by decide)

/-- The lines that were printed and are no questions are those of the instructions shown. -/
theorem Shows.exists_stepLines {before shown : Sink} {seen : List Snapshot}
    (h : Shows before seen shown) :
    ∃ added, shown = before.print added ∧ stepLines added = seen.map (stepText · ++ [0x0A]) := by
  -- the induction is about the lines that make up `added`, so that it ends with a whole line
  suffices hlines : ∃ ls : List Bytes, (∀ l ∈ ls, 0x0A ∉ l) ∧
      shown = before.print (ls.flatMap (· ++ [0x0A])) ∧
      ls.filter (· ≠ question) = seen.map stepText by
    obtain ⟨ls, hls, hprinted, hseen⟩ := hlines
    refine ⟨_, hprinted, ?_⟩
    have hfilter : (fun l : Bytes => decide (l ≠ question ++ [0x0A])) ∘ (· ++ [0x0A]) =
        fun l => decide (l ≠ question) := by
      funext l
      simp
    rw [stepLines, linesOf_flatMap hls, List.filter_map, hfilter, hseen, List.map_map]
    rfl
  induction h with
  | nil => exact ⟨[], List.forall_mem_nil _, before.print_nil.symm, rfl⟩
  | snoc hshows x n ih =>
      obtain ⟨ls, hls, hprinted, hseen⟩ := ih
      refine ⟨ls ++ stepText x :: List.replicate n question, ?_, ?_, ?_⟩
      · intro l hl
        obtain hl | hl := List.mem_append.mp hl
        · exact hls l hl
        · obtain rfl | hl := List.mem_cons.mp hl
          · exact lineFeed_not_mem_stepText x
          · rw [List.eq_of_mem_replicate hl]
            decide
      · rw [asked_eq, hprinted, Sink.print_print, Sink.print_print, List.flatMap_append,
          List.flatMap_cons]
      · rw [List.filter_append, hseen, List.map_append]
        simp [stepText_ne_question x]

/-! ## One instruction -/

/-- How a question is answered, by the first key with a meaning and with those after it left. The
end of the keys stands for going on. -/
inductive Answered (shown : Sink) (bytes : Bytes) : Signal SessionError × Stepper → Prop where
  | ended (n : Nat) :
      bytes.filter (· ∈ knownKeys) = [] →
      Answered shown bytes
        (.proceed, { keys := some { bytes := [] }, resume := true, shown := asked n shown })
  | step (n : Nat) (key : UInt8) (rest : Bytes) :
      key ∈ stepKeys → bytes.filter (· ∈ knownKeys) = key :: rest.filter (· ∈ knownKeys) →
      Answered shown bytes (.proceed, { keys := some { bytes := rest }, shown := asked n shown })
  | resume (n : Nat) (key : UInt8) (rest : Bytes) :
      key ∈ resumeKeys → bytes.filter (· ∈ knownKeys) = key :: rest.filter (· ∈ knownKeys) →
      Answered shown bytes
        (.proceed, { keys := some { bytes := rest }, resume := true, shown := asked n shown })
  | quit (n : Nat) (key : UInt8) (rest : Bytes) :
      key ∈ quitKeys → bytes.filter (· ∈ knownKeys) = key :: rest.filter (· ∈ knownKeys) →
      Answered shown bytes (.halt, { keys := some { bytes := rest }, shown := asked n shown })

/-- A key without a meaning leads to another question. -/
theorem Answered.cons {shown : Sink} {rest : Bytes} {answer : Signal SessionError × Stepper}
    (hkey : key ∉ knownKeys) (h : Answered (shown.print (question ++ [0x0A])) rest answer) :
    Answered shown (key :: rest) answer := by
  have hfilter : (key :: rest).filter (· ∈ knownKeys) = rest.filter (· ∈ knownKeys) :=
    List.filter_cons_of_neg (by simpa using hkey)
  cases h with
  | ended n hrest => exact .ended (n + 1) (hfilter.trans hrest)
  | step n key rest hstep hrest => exact .step (n + 1) key rest hstep (hfilter.trans hrest)
  | resume n key rest hresume hrest =>
      exact .resume (n + 1) key rest hresume (hfilter.trans hrest)
  | quit n key rest hquit hrest => exact .quit (n + 1) key rest hquit (hfilter.trans hrest)

theorem ask_answered (shown : Sink) (bytes : Bytes) :
    Answered shown bytes (ask none shown bytes) := by
  induction bytes generalizing shown with
  | nil => exact .ended 1 rfl
  | cons key rest ih =>
      by_cases hknown : key ∈ knownKeys
      · have hfilter : (key :: rest).filter (· ∈ knownKeys) =
            key :: rest.filter (· ∈ knownKeys) := List.filter_cons_of_pos (by simpa using hknown)
        obtain hknown | hquit := List.mem_append.mp hknown
        · obtain hstep | hresume := List.mem_append.mp hknown
          · rw [ask, KeyMeaning.ofKey?_of_mem_stepKeys hstep]
            exact .step 1 key rest hstep hfilter
          · rw [ask, KeyMeaning.ofKey?_of_mem_resumeKeys hresume]
            exact .resume 1 key rest hresume hfilter
        · rw [ask, KeyMeaning.ofKey?_of_mem_quitKeys hquit]
          exact .quit 1 key rest hquit hfilter
      · rw [ask, KeyMeaning.ofKey?_of_not_mem hknown]
        exact (ih _).cons hknown

/-- A stepper that does not go on by itself asks at every instruction. -/
theorem step_answered (x : Snapshot) (sink : Sink) (bytes : Bytes) (shown : Sink) :
    Answered (shown.print (stepText x ++ [0x0A])) bytes
      (step x sink { keys := some { bytes }, resume := false, shown }) :=
  ask_answered _ bytes

/-- A stepper that has shown the instructions of `seen`, whose keys come to an end, and that will
ask for the keys `awaited`, of those with a meaning. One that goes on without questions asks for
none. -/
structure Awaits (before : Sink) (seen : List Snapshot) (awaited : Bytes) (stepper : Stepper) :
    Prop where
  keys : ∃ bytes, stepper.keys = some { bytes } ∧
    awaited = if stepper.resume then [] else bytes.filter (· ∈ knownKeys)
  shows : Shows before seen stepper.shown

/-- The keys that are left after an instruction that is let pass. -/
def awaitedNext : Bytes → Bytes
  | [] => []
  | key :: rest => if key ∈ stepKeys then rest else []

namespace Awaits

variable {before : Sink} {seen : List Snapshot} {awaited : Bytes} {stepper : Stepper}

/-- A stepper that goes on without questions does so to the end. -/
theorem step_of_resume (h : Awaits before seen awaited stepper) (hresume : stepper.resume = true)
    (x : Snapshot) (sink : Sink) :
    ∃ stepper', step x sink stepper = (.proceed, stepper') ∧
      Awaits before (seen ++ [x]) (awaitedNext awaited) stepper' := by
  obtain ⟨keys, resume, shown⟩ := stepper
  obtain ⟨⟨bytes, rfl, rfl⟩, hshows⟩ := h
  cases hresume
  exact ⟨_, rfl, ⟨bytes, rfl, rfl⟩, hshows.snoc x 0⟩

/-- A stepper whose next key with a meaning asks for it ends the run. -/
theorem step_of_quit (h : Awaits before seen awaited stepper)
    (hquit : ∃ key ∈ quitKeys, awaited.head? = some key) (x : Snapshot) (sink : Sink) :
    ∃ stepper', step x sink stepper = (.halt, stepper') ∧
      Shows before (seen ++ [x]) stepper'.shown := by
  obtain ⟨key, hkey, hhead⟩ := hquit
  obtain ⟨keys, resume, shown⟩ := stepper
  obtain ⟨⟨bytes, rfl, rfl⟩, hshows⟩ := h
  cases resume with
  | true => cases hhead
  | false =>
      have hhead : (bytes.filter (· ∈ knownKeys)).head? = some key := hhead
      have hanswered := step_answered x sink bytes shown
      generalize step x sink { keys := some { bytes }, resume := false, shown } = answer
        at hanswered ⊢
      cases hanswered with
      | ended n hfilter =>
          rw [hfilter] at hhead
          cases hhead
      | step n key' rest hkey' hfilter =>
          rw [hfilter] at hhead
          cases hhead
          exact absurd hkey (not_mem_quitKeys_of_mem_stepKeys hkey')
      | resume n key' rest hkey' hfilter =>
          rw [hfilter] at hhead
          cases hhead
          exact absurd hkey (not_mem_quitKeys_of_mem_resumeKeys hkey')
      | quit n key' rest hkey' hfilter => exact ⟨_, rfl, hshows.snoc x n⟩

/-- Any other stepper lets the instruction pass. -/
theorem step_of_ne_quit (h : Awaits before seen awaited stepper)
    (hquit : ¬∃ key ∈ quitKeys, awaited.head? = some key) (x : Snapshot) (sink : Sink) :
    ∃ stepper', step x sink stepper = (.proceed, stepper') ∧
      Awaits before (seen ++ [x]) (awaitedNext awaited) stepper' := by
  cases hresume : stepper.resume with
  | true => exact h.step_of_resume hresume x sink
  | false =>
      obtain ⟨keys, resume, shown⟩ := stepper
      obtain ⟨⟨bytes, rfl, rfl⟩, hshows⟩ := h
      cases hresume
      have hquit : ¬∃ key ∈ quitKeys, (bytes.filter (· ∈ knownKeys)).head? = some key := hquit
      have hanswered := step_answered x sink bytes shown
      rw [if_neg Bool.false_ne_true]
      generalize step x sink { keys := some { bytes }, resume := false, shown } = answer
        at hanswered ⊢
      cases hanswered with
      | ended n hfilter =>
          rw [hfilter]
          exact ⟨_, rfl, ⟨[], rfl, rfl⟩, hshows.snoc x n⟩
      | step n key rest hkey hfilter =>
          rw [hfilter]
          refine ⟨_, rfl, ⟨rest, rfl, ?_⟩, hshows.snoc x n⟩
          rw [awaitedNext, if_pos hkey, if_neg Bool.false_ne_true]
      | resume n key rest hkey hfilter =>
          rw [hfilter]
          refine ⟨_, rfl, ⟨rest, rfl, ?_⟩, hshows.snoc x n⟩
          rw [awaitedNext, if_neg (not_mem_stepKeys_of_mem_resumeKeys hkey), if_pos rfl]
      | quit n key rest hkey hfilter => exact absurd ⟨key, hkey, by rw [hfilter]; rfl⟩ hquit

end Awaits

/-! ## Any number of instructions -/

/-- A key to end the run is next after as many instructions as there are keys for a step before the
first other key, if that one asks for it. -/
theorem head?_awaitedNext_iff (hquit : key ∈ quitKeys) (known : Bytes) (j : Nat) :
    (awaitedNext^[j] known).head? = some key ↔
      j = (known.takeWhile (· ∈ stepKeys)).length ∧ known[j]? = some key := by
  have hnil (n : Nat) : awaitedNext^[n] [] = [] := Function.iterate_fixed rfl n
  induction known generalizing j with
  | nil => simp [hnil]
  | cons first rest ih =>
      by_cases hstep : first ∈ stepKeys
      · have hne : first ≠ key := by
          rintro rfl
          exact not_mem_quitKeys_of_mem_stepKeys hstep hquit
        cases j with
        | zero => simp [hne]
        | succ j =>
            rw [Function.iterate_succ_apply, awaitedNext, if_pos hstep]
            refine (ih j).trans ?_
            simp [hstep]
      · cases j with
        | zero => simp [hstep]
        | succ j =>
            rw [Function.iterate_succ_apply, awaitedNext, if_neg hstep, hnil]
            simp [hstep]

variable {code : Code} {tape : Tape} {console : Console} {before : Sink} {known : Bytes}
  {stepper stepper' : Stepper} {k : Nat}

theorem map_some_snoc {seen : List Snapshot} {m : Machine Console} {x : Instruction}
    (hseen : seen.map some = (List.range k).map (snapshotAt Console.channel code tape console))
    (hexec : executedAt Console.channel code tape console k = some (m, x)) :
    (seen ++ [m.snapshot x]).map some =
      (List.range (k + 1)).map (snapshotAt Console.channel code tape console) := by
  rw [List.range_succ, List.map_append, List.map_append, hseen, List.map_singleton,
    List.map_singleton, snapshotAt, hexec, Option.map_some]

/-- The plain run has the instructions that were shown of it. -/
theorem isSome_executedAt_of_map {seen : List Snapshot}
    (hseen : seen.map some = (List.range k).map (snapshotAt Console.channel code tape console)) :
    ∀ j < k, (executedAt Console.channel code tape console j).isSome := by
  intro j hj
  have hmem : snapshotAt Console.channel code tape console j ∈ seen.map some := by
    rw [hseen]
    exact List.mem_map_of_mem (List.mem_range.mpr hj)
  obtain ⟨x, -, hx⟩ := List.mem_map.mp hmem
  obtain ⟨call, hcall, -⟩ := Option.map_eq_some_iff.mp hx.symm
  exact Option.isSome_of_eq_some hcall

/-- The lines of the first instructions of a plain run. -/
theorem Shows.exists_stepLines_of_map {shown : Sink} {seen : List Snapshot}
    (h : Shows before seen shown)
    (hseen : seen.map some = (List.range k).map (snapshotAt Console.channel code tape console)) :
    ∃ added, shown = before.print added ∧
      (before.limit = none → shown.received.toList = before.received.toList ++ added) ∧
      (stepLines added).map some = (List.range k).map fun j =>
        (snapshotAt Console.channel code tape console j).map (stepText · ++ [0x0A]) := by
  obtain ⟨added, hadded, hlines⟩ := h.exists_stepLines
  refine ⟨added, hadded, ?_, ?_⟩
  · intro hlimit
    rw [hadded, Sink.received_print hlimit]
  · have hmapped := congrArg (List.map (Option.map (stepText · ++ [0x0A]))) hseen
    rw [List.map_map, List.map_map] at hmapped
    rw [hlines, List.map_map]
    exact hmapped

/-- A stepper that has let a number of instructions pass has shown them. -/
theorem exists_awaits_of_watcherAt (hstart : Awaits before [] known stepper)
    (hstepper : watcherAt step code tape console stepper k = some stepper') :
    ∃ seen, Awaits before seen (awaitedNext^[k] known) stepper' ∧
      seen.map some = (List.range k).map (snapshotAt Console.channel code tape console) := by
  induction k generalizing stepper' with
  | zero =>
      cases hstepper
      exact ⟨[], hstart, rfl⟩
  | succ k ih =>
      obtain ⟨stepper₁, m, x, hstepper₁, hexec, hstep⟩ := watcherAt_succ_eq_some.mp hstepper
      obtain ⟨seen, hawaits, hseen⟩ := ih hstepper₁
      have hgoes : ¬∃ key ∈ quitKeys, (awaitedNext^[k] known).head? = some key := by
        intro hquit
        obtain ⟨_, hhalt, -⟩ := hawaits.step_of_quit hquit (m.snapshot x) m.world.settled.sink
        rw [hstep] at hhalt
        cases hhalt
      obtain ⟨stepper₂, hproceed, hnext⟩ :=
        hawaits.step_of_ne_quit hgoes (m.snapshot x) m.world.settled.sink
      cases hstep.symm.trans hproceed
      rw [← Function.iterate_succ_apply' awaitedNext] at hnext
      exact ⟨seen ++ [m.snapshot x], hnext, map_some_snoc hseen hexec⟩

/-- A stepper lets pass all instructions of the plain run before the one at which a key to end the
run is next. -/
theorem exists_watcherAt {call : Machine Console × Instruction}
    (hstart : Awaits before [] known stepper)
    (hexec : executedAt Console.channel code tape console k = some call)
    (hgoes : ∀ j < k, ¬∃ key ∈ quitKeys, (awaitedNext^[j] known).head? = some key) :
    ∃ stepper', watcherAt step code tape console stepper k = some stepper' := by
  induction k generalizing call with
  | zero => exact ⟨stepper, rfl⟩
  | succ k ih =>
      obtain ⟨⟨m, x⟩, hexec'⟩ := exists_executedAt_of_le hexec (Nat.le_succ k)
      obtain ⟨stepper₁, hstepper₁⟩ := ih hexec' fun j hj => hgoes j (Nat.lt_succ_of_lt hj)
      obtain ⟨seen, hawaits, -⟩ := exists_awaits_of_watcherAt hstart hstepper₁
      obtain ⟨stepper₂, hproceed, -⟩ := hawaits.step_of_ne_quit (hgoes k (Nat.lt_succ_self k))
        (m.snapshot x) m.world.settled.sink
      exact ⟨stepper₂, watcherAt_succ_eq_some.mpr ⟨stepper₁, m, x, hstepper₁, hexec', hproceed⟩⟩

/-- A stepper is quiet if no key to end the run is next at an instruction of the plain run. -/
theorem quiet_of_keys (hstart : Awaits before [] known stepper)
    (hgoes : ∀ j call, executedAt Console.channel code tape console j = some call →
      ¬∃ key ∈ quitKeys, (awaitedNext^[j] known).head? = some key) :
    Quiet step code tape console stepper := by
  intro j m x stepper' hexec hstepper
  obtain ⟨seen, hawaits, -⟩ := exists_awaits_of_watcherAt hstart hstepper
  obtain ⟨_, hproceed, -⟩ :=
    hawaits.step_of_ne_quit (hgoes j _ hexec) (m.snapshot x) m.world.settled.sink
  rw [hproceed]

end Stepper

/-- **The keys decide how a stepped run ends.** Let `known` be the keys with a meaning, in order,
and `k` the number of keys for a step before the first other one. If that key asks to end the run,
and the plain run has an instruction number `k`, then the stepped run ends without an error where
the plain run is before this instruction; it has written a line for this one and the `k` before. In
all other cases the stepped run is the plain run, with the same bound, and writes a line for every
instruction of it. Besides these lines there are only questions in the text that it prints on the
sink `shown`, which takes all of it unless it has a limit. -/
theorem stepper_follows_keys (s : Session) (hsink : s.console.Unlimited) (code : Code)
    (bytes : Bytes) (shown : Sink) :
    let stepper : Stepper := { keys := some { bytes }, shown }
    let known := bytes.filter (· ∈ knownKeys)
    let k := (known.takeWhile (· ∈ stepKeys)).length
    let instruction := executedAt Console.channel code s.tape s.console
    let line (j : Nat) := (snapshotAt Console.channel code s.tape s.console j).map
      (stepText · ++ [0x0A])
    (∀ key ∈ quitKeys, known[k]? = some key → ∀ m x, instruction k = some (m, x) →
      ∃ stepper',
        (∀ fuel, k < fuel → stepper.run s fuel code =
          some (.ok (), { s with tape := m.tape, console := m.world.settled }, stepper')) ∧
        ∃ added, stepper'.shown = shown.print added ∧
          (shown.limit = none →
            stepper'.shown.received.toList = shown.received.toList ++ added) ∧
          (Stepper.stepLines added).map some = (List.range (k + 1)).map line) ∧
    (¬((∃ key ∈ quitKeys, known[k]? = some key) ∧ (instruction k).isSome) → ∀ fuel,
      (stepper.run s fuel code = none ↔ s.execute fuel code = none) ∧
      ∀ result s', s.execute fuel code = some (result, s') →
        ∃ stepper' n, stepper.run s fuel code = some (result, s', stepper') ∧
          instruction n = none ∧ (∀ j < n, (instruction j).isSome) ∧
          ∃ added, stepper'.shown = shown.print added ∧
            (shown.limit = none →
              stepper'.shown.received.toList = shown.received.toList ++ added) ∧
            (Stepper.stepLines added).map some = (List.range n).map line) := by
  intro stepper known k instruction line
  have hstart : Stepper.Awaits shown [] known stepper := ⟨⟨bytes, rfl, rfl⟩, .nil⟩
  refine ⟨?_, ?_⟩
  · intro key hkey hknown m x hexec
    have hgoes : ∀ j < k, ¬∃ key ∈ quitKeys, (Stepper.awaitedNext^[j] known).head? = some key := by
      rintro j hj ⟨key', hkey', hhead⟩
      exact Nat.ne_of_lt hj ((Stepper.head?_awaitedNext_iff hkey' known j).mp hhead).1
    have hhead := (Stepper.head?_awaitedNext_iff hkey known k).mpr ⟨rfl, hknown⟩
    obtain ⟨stepper₁, hstepper₁⟩ := Stepper.exists_watcherAt hstart hexec hgoes
    obtain ⟨seen, hawaits, hseen⟩ := Stepper.exists_awaits_of_watcherAt hstart hstepper₁
    obtain ⟨stepper', hhalt, hshows⟩ :=
      hawaits.step_of_quit ⟨key, hkey, hhead⟩ (m.snapshot x) m.world.settled.sink
    exact ⟨stepper', fun fuel hfuel => Session.watch_of_halt hsink hexec hstepper₁ hhalt hfuel,
      hshows.exists_stepLines_of_map (Stepper.map_some_snoc hseen hexec)⟩
  · intro hother fuel
    have hquiet : Quiet Stepper.step code s.tape s.console stepper := by
      refine Stepper.quiet_of_keys hstart ?_
      rintro j call hexec ⟨key, hkey, hhead⟩
      obtain ⟨rfl, hknown⟩ := (Stepper.head?_awaitedNext_iff hkey known j).mp hhead
      exact hother ⟨⟨key, hkey, hknown⟩, Option.isSome_of_eq_some hexec⟩
    obtain ⟨hends, hwatch⟩ := Session.watch_of_quiet hsink hquiet fuel
    refine ⟨hends, fun result s' hexecute => ?_⟩
    obtain ⟨n, stepper', hend, hstepper, hrun⟩ := hwatch result s' hexecute
    obtain ⟨seen, hawaits, hseen⟩ := Stepper.exists_awaits_of_watcherAt hstart hstepper
    exact ⟨stepper', n, hrun, hend, Stepper.isSome_executedAt_of_map hseen,
      hawaits.shows.exists_stepLines_of_map hseen⟩

/-- A loop that never ends is stepped three times, past a key without a meaning, and then
interrupted, with a key to go on behind. It has written one byte, and four lines were shown. -/
theorem stepper_follows_keys_of_endless_loop :
    let code : Code := #[{ op := some .increment }, { op := some .loopStart, target := 4 },
      { op := some .output }, { op := some .loopEnd, target := 1 }]
    let s : Session :=
      { settings := {}, tape := #[0], console := { feed := { bytes := [] } }, store := .absent,
        host := {} }
    let stepper : Stepper := { keys := some { bytes := [0x73, 0x78, 0x0A, 0x20, 0x03, 0x63] } }
    s.console.Unlimited ∧ ∃ stepper',
      (∀ fuel, 3 < fuel → stepper.run s fuel code =
        some (.ok (), { s with
          tape := #[1], console := { feed := { bytes := [] }, sink := { received := #[1] } } },
          stepper')) ∧
      (Stepper.stepLines stepper'.shown.received.toList).length = 4 := by
  intro code s stepper
  have hsink : s.console.Unlimited := ⟨rfl, rfl⟩
  obtain ⟨hquits, -⟩ :=
    stepper_follows_keys s hsink code [0x73, 0x78, 0x0A, 0x20, 0x03, 0x63] {}
  obtain ⟨stepper', hrun, added, -, hreceived, hlines⟩ := hquits 0x03 (by decide) rfl _ _ rfl
  refine ⟨hsink, stepper', hrun, ?_⟩
  rw [hreceived rfl]
  have hlength := congrArg List.length hlines
  rwa [List.length_map, List.length_map, List.length_range] at hlength

end Brainfuck
