import Brainfuck.Proofs.Blocks

/-!
# Arenas under any calls

Whatever calls were made on an arena, its open blocks are those from the innermost one along the
parents, and code that was handed out stays as it is.

## Main Definitions

* `Arena.afterCalls` — the arena that some calls leave behind
* `ArenaCall.Fits` — whether a call names the innermost open block

## Main Results

* `Arena.nested_afterCalls`, `Arena.evolves_afterCalls` — what any calls preserve
* `Arena.Nested.extract_of_complete` — the code of a completed block stays as it is
* `arena_calls_keep_blocks` — blocks stay nested and code stays settled under any calls

## Design Notes

When a block is completed, the loop blocks that are still open lie around it and start before it.
A loop block that is opened later starts behind its code. Hence no guard that is yet to get its
target stands in the code of a completed block.
-/

namespace Brainfuck

namespace Arena

variable {a a' a'' : Arena} {c : ArenaCall} {answer : ArenaAnswer}

/-- The arena that a call leaves behind, a fault included. -/
def call (a : Arena) (c : ArenaCall) : Arena :=
  match c.carryOut.run a with
  | .ok _ a' => a'
  | .error _ a' => a'

/-- The arena that some calls leave behind. -/
def afterCalls (calls : List ArenaCall) : Arena :=
  calls.foldl call empty

/-- A call either does what it is for or leaves the arena as it was. -/
theorem Nested.call_cases (h : a.Nested) (c : ArenaCall) :
    (∃ f, a.perform c = .error f ∧ c.carryOut.run a = .error f a ∧ a.call c = a) ∨
      ∃ answer a', a.perform c = .ok (answer, a') ∧ c.carryOut.run a = .ok answer a' ∧
        a.call c = a' ∧ a.Does c answer a' := by
  have hrun : c.carryOut.run a = c.settled a := ArenaCall.run_carryOut h.start_le_size c
  unfold ArenaCall.settled at hrun
  cases hperform : a.perform c with
  | error f =>
      rw [hperform] at hrun
      exact .inl ⟨f, rfl, hrun, by rw [call, hrun]⟩
  | ok result =>
      obtain ⟨answer, a'⟩ := result
      rw [hperform] at hrun
      exact .inr ⟨answer, a', rfl, hrun, by rw [call, hrun], does_of_perform hperform⟩

theorem Nested.call (h : a.Nested) (c : ArenaCall) : (a.call c).Nested ∧ a.Evolves (a.call c) := by
  rcases h.call_cases c with ⟨-, -, -, hsame⟩ | ⟨answer, a', -, -, hcall, hdoes⟩
  · rw [hsame]
    exact ⟨h, .refl a⟩
  · rw [hcall]
    exact ⟨hdoes.nested h, hdoes.evolves⟩

theorem Nested.calls (h : a.Nested) (calls : List ArenaCall) :
    (calls.foldl Arena.call a).Nested ∧ a.Evolves (calls.foldl Arena.call a) := by
  induction calls generalizing a with
  | nil => exact ⟨h, .refl a⟩
  | cons c calls ih =>
      obtain ⟨hnested, hevolves⟩ := h.call c
      obtain ⟨hnested', hevolves'⟩ := ih hnested
      exact ⟨hnested', hevolves.trans hnested hevolves'⟩

theorem nested_empty : empty.Nested where
  exists_chain := by
    refine ⟨[], rfl, List.Pairwise.nil, ?_⟩
    intro n
    simp [IsOpenBlock, empty]
  start_le_size := by simp [empty]
  start_le_start := by simp [empty]
  start_lt_start := by simp [empty]
  guarded := by simp [empty]

theorem nested_afterCalls (calls : List ArenaCall) : (afterCalls calls).Nested :=
  (nested_empty.calls calls).1

theorem afterCalls_append (calls later : List ArenaCall) :
    afterCalls (calls ++ later) = later.foldl call (afterCalls calls) := by
  rw [afterCalls, afterCalls, List.foldl_append]

theorem evolves_afterCalls (calls later : List ArenaCall) :
    (afterCalls calls).Evolves (afterCalls (calls ++ later)) := by
  rw [afterCalls_append]
  exact ((nested_afterCalls calls).calls later).2

/-- The open loop blocks around a block that has just been completed start before it. -/
theorem Nested.start_lt_of_open (h : a.Nested) {n m : Nat} {b d : Block}
    (hb : a.blocks[n]? = some b) (hopen : b.complete = false) (hinner : a.innermost = n)
    (hd : (a.blocks.setIfInBounds n { b with complete := true })[m]? = some d)
    (hdopen : d.complete = false) (hloop : d.loop = true) : d.start < b.start := by
  rcases getElem?_complete_cases hb hd with ⟨hne, hold⟩ | ⟨-, rfl⟩
  · obtain ⟨chain, hchain⟩ := h.exists_chain
    rw [hinner] at hchain
    obtain ⟨outer, rfl, -⟩ := hchain.complete hb hopen
    have hm : m ∈ n :: outer := (hchain.mem_iff m).mpr ⟨d, hold, hdopen⟩
    have houter : m ∈ outer := (List.mem_cons.mp hm).resolve_left hne
    have hlt : m < n := (List.pairwise_cons.mp hchain.decreasing).1 m houter
    exact h.start_lt_start hold hb hlt hloop
  · cases hdopen

theorem extract_eq_of_getElem? {code code' : Code} {start stop : Nat} (hcode : stop ≤ code.size)
    (hcode' : stop ≤ code'.size)
    (h : ∀ k, start ≤ k → k < stop → code'[k]? = code[k]?) :
    code'.extract start stop = code.extract start stop := by
  apply Array.ext_getElem?
  intro i
  rw [Array.getElem?_extract, Array.getElem?_extract, Nat.min_eq_left hcode, Nat.min_eq_left hcode']
  by_cases hi : i < stop - start
  · rw [if_pos hi, if_pos hi]
    exact h (start + i) (Nat.le_add_right start i) (by omega)
  · rw [if_neg hi, if_neg hi]

/-- The code of a completed block stays as it is. -/
theorem Nested.extract_of_complete (h : a.Nested) {handle : Handle} {exit : Instruction}
    (hperform : a.perform (.complete handle exit) = .ok (answer, a')) :
    ∃ b, a.get handle = .ok b ∧ answer = .code (a'.code.extract b.start a'.code.size) ∧
      ∀ a'', a'.Evolves a'' →
        a''.code.extract b.start a'.code.size = a'.code.extract b.start a'.code.size := by
  cases does_of_perform hperform with
  | @completes n b exit hb hopen hinner =>
      refine ⟨b, by simp [get, hb], rfl, ?_⟩
      intro a'' hevolves
      apply extract_eq_of_getElem? (Nat.le_refl _) hevolves.size_le
      intro k hstart hstop
      rcases hevolves.instruction (Array.getElem?_eq_getElem hstop) with
        hsame | ⟨m, d, -, hd, hloop, hdopen, hk, -, -⟩
      · rw [hsame, Array.getElem?_eq_getElem hstop]
      · have := h.start_lt_of_open hb hopen hinner hd hdopen hloop
        omega

end Arena

/-- Whether a call names the innermost open block; only a block that is opened may be inside no
other. -/
def ArenaCall.Fits (a : Arena) : ArenaCall → Prop
  | openBlock parent _ _ => parent = a.innermost
  | append h _ => h = a.innermost ∧ h ≠ Handle.none
  | complete h _ => h = a.innermost ∧ h ≠ Handle.none

namespace Arena

variable {a : Arena}

/-- The innermost block is there and open. -/
theorem Nested.exists_innermost (h : a.Nested) (hinner : a.innermost ≠ Handle.none) :
    ∃ (n : Nat) (b : Block),
      a.innermost = n ∧ a.blocks[n]? = some b ∧ b.complete = false := by
  obtain ⟨chain, hchain⟩ := h.exists_chain
  cases chain with
  | nil => exact absurd hchain.parents hinner
  | cons n outer =>
      obtain ⟨b, hb, hopen⟩ := (hchain.mem_iff n).mp List.mem_cons_self
      exact ⟨n, b, hchain.parents.1, hb, hopen⟩

/-- A call is a fault unless it names the innermost open block. -/
theorem Nested.perform_iff (h : a.Nested) (c : ArenaCall) :
    (∃ answer a', a.perform c = .ok (answer, a')) ↔ c.Fits a := by
  constructor
  · rintro ⟨answer, a', hperform⟩
    cases does_of_perform hperform with
    | opens loop guard => rfl
    | appends i hb hopen hinner => exact ⟨hinner.symm, by simp [Handle.none]⟩
    | completes exit hb hopen hinner => exact ⟨hinner.symm, by simp [Handle.none]⟩
  · intro hfits
    cases c with
    | openBlock parent loop guard =>
        have hparent : parent = a.innermost := hfits
        simp only [perform, openBlock_eq, if_pos hparent]
        exact ⟨_, _, rfl⟩
    | append handle i =>
        obtain ⟨rfl, hnone⟩ := hfits
        obtain ⟨n, b, hinner, hb, hopen⟩ := h.exists_innermost hnone
        simp only [perform, hinner, append_eq_ok hb hopen hinner i]
        exact ⟨_, _, rfl⟩
    | complete handle exit =>
        obtain ⟨rfl, hnone⟩ := hfits
        obtain ⟨n, b, hinner, hb, hopen⟩ := h.exists_innermost hnone
        rw [perform_complete_eq, hinner, getInnermost_eq_ok hb hopen hinner]
        exact ⟨_, _, rfl⟩

end Arena

/-- **Any calls keep the blocks of an arena nested and its code settled.** After any calls, faults
included, the open blocks are those from the innermost one along the parents; the starts of the
blocks do not decrease and lie in the code; and a guard has no target until its block is complete.
From then on code and blocks are only added, but for the target of a guard, which is set when its
block is completed. The next call is a fault unless it names the innermost open block, and a fault
leaves the arena as it was although the call changes it write by write. If it completes a block, it
returns the code from the start of the block, and no later call changes that code. -/
theorem arena_calls_keep_blocks (calls : List ArenaCall) :
    let a := Arena.afterCalls calls
    (∃ chain, IsParentChain a.blocks a.innermost chain ∧ chain.Nodup ∧
      ∀ n, n ∈ chain ↔ IsOpenBlock a.blocks n) ∧
    (∀ (m n : Nat) b c, m ≤ n → a.blocks[m]? = some b → a.blocks[n]? = some c →
      b.start ≤ c.start ∧ c.start ≤ a.code.size) ∧
    (∀ (n : Nat) b, a.blocks[n]? = some b → b.loop = true → b.Guarded a.code) ∧
    (∀ later, a.Evolves (Arena.afterCalls (calls ++ later))) ∧
    ∀ c : ArenaCall,
      ((∃ answer a', a.perform c = .ok (answer, a')) ↔ c.Fits a) ∧
      (∀ f, a.perform c = .error f → c.carryOut.run a = .error f a) ∧
      ∀ answer a', a.perform c = .ok (answer, a') →
        c.carryOut.run a = .ok answer a' ∧
        ∀ h exit, c = .complete h exit →
          ∃ b, a.get h = .ok b ∧ answer = .code (a'.code.extract b.start a'.code.size) ∧
            ∀ later, (Arena.afterCalls (calls ++ c :: later)).code.extract b.start a'.code.size =
              a'.code.extract b.start a'.code.size := by
  intro a
  have hnested : a.Nested := Arena.nested_afterCalls calls
  refine ⟨?_, ?_, ?_, Arena.evolves_afterCalls calls, ?_⟩
  · obtain ⟨chain, hchain⟩ := hnested.exists_chain
    exact ⟨chain, hchain.parents, hchain.decreasing.imp (fun h => Nat.ne_of_gt h), hchain.mem_iff⟩
  · intro m n b c hle hb hc
    exact ⟨hnested.start_le_start hb hc hle, hnested.start_le_size hc⟩
  · intro n b hb hloop
    exact hnested.guarded hb hloop
  · intro c
    refine ⟨hnested.perform_iff c, ?_, ?_⟩
    · intro f hf
      rcases hnested.call_cases c with ⟨f', hf', hrun, -⟩ | ⟨answer, a', hok, -⟩
      · cases hf.symm.trans hf'
        exact hrun
      · cases hf.symm.trans hok
    · intro answer a' hok
      rcases hnested.call_cases c with ⟨f, hf, -⟩ | ⟨answer', b', hok', hrun, hcall, -⟩
      · cases hok.symm.trans hf
      · cases hok.symm.trans hok'
        refine ⟨hrun, ?_⟩
        rintro h exit rfl
        obtain ⟨b, hget, hanswer, hkept⟩ := hnested.extract_of_complete hok
        refine ⟨b, hget, hanswer, fun later => hkept _ ?_⟩
        have hlater : Arena.afterCalls (calls ++ .complete h exit :: later) =
            later.foldl Arena.call a' := by
          rw [Arena.afterCalls_append, List.foldl_cons, hcall]
        rw [hlater, ← hcall]
        exact ((hnested.call _).1.calls later).2

/-- A block inside a loop holds a jump of its caller's. It is handed out as it is and stays so when
the loop is completed, although the calls include one on an outer block and one on a block that is
complete. -/
theorem arena_calls_keep_blocks_around_jump :
    ∃ (jump : Instruction) (calls later : List ArenaCall) (a' : Arena),
      jump = { op := some .loopEnd, target := 7 } ∧
      calls = [.openBlock (-1) false {}, .openBlock 0 true {}, .append 0 jump,
        .openBlock 1 false {}, .append 2 jump] ∧
      later = [.complete 1 {}, .complete 1 {}] ∧
      (Arena.afterCalls calls).perform (.complete 2 {}) = .ok (.code #[jump], a') ∧
      (Arena.afterCalls (calls ++ .complete 2 {} :: later)).code.extract 1 2 = #[jump] := by
  have hperform : ∃ a', (Arena.afterCalls
      [.openBlock (-1) false {}, .openBlock 0 true {}, .append 0 { op := some .loopEnd, target := 7 },
        .openBlock 1 false {}, .append 2 { op := some .loopEnd, target := 7 }]).perform
          (.complete 2 {}) = .ok (.code #[{ op := some .loopEnd, target := 7 }], a') ∧
      a'.code.size = 2 := ⟨_, rfl, rfl⟩
  obtain ⟨a', ha', hsize⟩ := hperform
  refine ⟨_, _, [.complete 1 {}, .complete 1 {}], a', rfl, rfl, rfl, ha', ?_⟩
  obtain ⟨-, -, -, -, hcalls⟩ := arena_calls_keep_blocks
    [.openBlock (-1) false {}, .openBlock 0 true {}, .append 0 { op := some .loopEnd, target := 7 },
      .openBlock 1 false {}, .append 2 { op := some .loopEnd, target := 7 }]
  obtain ⟨-, hcomplete⟩ := (hcalls (.complete 2 {})).2.2 _ a' ha'
  obtain ⟨b, hb, hanswer, hkept⟩ := hcomplete 2 {} rfl
  have hstart : b.start = 1 := by
    cases hb
    rfl
  rw [hsize, hstart] at hkept hanswer
  rw [hkept]
  exact (ArenaAnswer.code.inj hanswer).symm

end Brainfuck
