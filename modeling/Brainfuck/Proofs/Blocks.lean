import Brainfuck.Proofs.ArenaCalls

/-!
# Blocks of an arena

What one call on an arena preserves. The open blocks hang together by their parents, and what has
been emitted stays as it is, but for the targets of guards.

## Main Definitions

* `IsParentChain`, `IsOpenChain` — the handles from a block along its parents
* `Block.Guarded` — the guard of a loop block
* `Arena.Nested` — what holds of an arena, whatever calls were made on it
* `Arena.Evolves` — what may change from one arena to a later one

## Main Results

* `Arena.Evolves.trans` — a target that was set is not set again
* `Arena.Does.evolves`, `Arena.Does.nested` — what one call preserves

## Design Notes

The guard of a loop block stands at its start, so that the blocks inside start behind it. Of two
loop blocks the one that was opened later therefore has the greater start, and a guard belongs to
one block only.
-/

namespace Brainfuck

/-! ## What every arena keeps -/

/-- The handles from a block along its parents, up to the one that is inside no other. -/
def IsParentChain (blocks : Array Block) : Handle → List Nat → Prop
  | h, [] => h = Handle.none
  | h, n :: outer => h = n ∧ ∃ b, blocks[n]? = some b ∧ IsParentChain blocks b.parent outer

/-- Whether a block is there and not complete. -/
def IsOpenBlock (blocks : Array Block) (n : Nat) : Prop :=
  ∃ b, blocks[n]? = some b ∧ b.complete = false

/-- The handles from a block along its parents are those of the open blocks, each opened after the
next one. -/
structure IsOpenChain (blocks : Array Block) (h : Handle) (chain : List Nat) : Prop where
  parents : IsParentChain blocks h chain
  decreasing : chain.Pairwise (· > ·)
  mem_iff : ∀ n, n ∈ chain ↔ IsOpenBlock blocks n

/-- The guard of a loop block stands at its start. It has no target as long as the block is open;
then it jumps behind the exit, which jumps back to it. -/
def Block.Guarded (b : Block) (code : Code) : Prop :=
  ∃ guard, code[b.start]? = some guard ∧ guard.op = some .loopStart ∧
    if b.complete then
      ∃ (last : Nat) (exit : Instruction), code[last]? = some exit ∧ exit.op = some .loopEnd ∧
        exit.target = (b.start : Int) ∧ guard.target = ((last + 1 : Nat) : Int)
    else guard.target = 0

namespace Arena

/-- What holds of an arena, whatever calls were made on it. -/
structure Nested (a : Arena) : Prop where
  exists_chain : ∃ chain, IsOpenChain a.blocks a.innermost chain
  start_le_size : ∀ {n : Nat} {b : Block}, a.blocks[n]? = some b → b.start ≤ a.code.size
  start_le_start : ∀ {m n : Nat} {b c : Block}, a.blocks[m]? = some b → a.blocks[n]? = some c →
    m ≤ n → b.start ≤ c.start
  start_lt_start : ∀ {m n : Nat} {b c : Block}, a.blocks[m]? = some b → a.blocks[n]? = some c →
    m < n → b.loop = true → b.start < c.start
  guarded : ∀ {n : Nat} {b : Block}, a.blocks[n]? = some b → b.loop = true → b.Guarded a.code

/-- What may happen to an arena: code and blocks are added, blocks are completed, and a loop block
that is completed gets the target of its guard. -/
structure Evolves (a a' : Arena) : Prop where
  size_le : a.code.size ≤ a'.code.size
  fresh : ∀ {n : Nat} {b : Block}, a'.blocks[n]? = some b → a.blocks.size ≤ n →
    a.code.size ≤ b.start
  block : ∀ {n : Nat} {b : Block}, a.blocks[n]? = some b → a'.blocks[n]? = some b ∨
    b.complete = false ∧ a'.blocks[n]? = some { b with complete := true }
  instruction : ∀ {k : Nat} {x : Instruction}, a.code[k]? = some x → a'.code[k]? = some x ∨
    ∃ (n : Nat) (b : Block) (target : Int), a.blocks[n]? = some b ∧ b.loop = true ∧ b.complete = false ∧
      b.start = k ∧ a'.blocks[n]? = some { b with complete := true } ∧
      a'.code[k]? = some { x with target }

end Arena

theorem IsParentChain.congr {blocks blocks' : Array Block} {chain : List Nat} {h : Handle}
    (hc : IsParentChain blocks h chain) (hsame : ∀ n ∈ chain, blocks'[n]? = blocks[n]?) :
    IsParentChain blocks' h chain := by
  induction chain generalizing h with
  | nil => exact hc
  | cons n outer ih =>
      obtain ⟨hn, b, hb, houter⟩ := hc
      refine ⟨hn, b, ?_, ?_⟩
      · rw [hsame n List.mem_cons_self, hb]
      · exact ih houter fun m hm => hsame m (List.mem_cons_of_mem n hm)

theorem getElem?_push_cases {blocks : Array Block} {n : Nat} {b c : Block}
    (h : (blocks.push b)[n]? = some c) : blocks[n]? = some c ∨ n = blocks.size ∧ c = b := by
  rw [Array.getElem?_push] at h
  split at h
  next hn => exact .inr ⟨hn, (Option.some.inj h).symm⟩
  next => exact .inl h

/-- The blocks after one of them was completed. -/
theorem getElem?_complete_cases {blocks : Array Block} {n m : Nat} {b c : Block}
    (hb : blocks[n]? = some b)
    (h : (blocks.setIfInBounds n { b with complete := true })[m]? = some c) :
    m ≠ n ∧ blocks[m]? = some c ∨ m = n ∧ c = { b with complete := true } := by
  rw [Array.getElem?_setIfInBounds] at h
  by_cases hm : n = m
  · subst hm
    have hn := (Array.getElem?_eq_some_iff.mp hb).1
    rw [if_pos rfl, if_pos hn] at h
    exact .inr ⟨rfl, (Option.some.inj h).symm⟩
  · rw [if_neg hm] at h
    exact .inl ⟨Ne.symm hm, h⟩

namespace IsOpenChain

variable {blocks : Array Block} {h : Handle} {chain : List Nat}

theorem lt_size (hc : IsOpenChain blocks h chain) {n : Nat} (hn : n ∈ chain) : n < blocks.size := by
  obtain ⟨b, hb, -⟩ := (hc.mem_iff n).mp hn
  exact (Array.getElem?_eq_some_iff.mp hb).1

/-- A block that is opened inside the innermost one comes first. -/
theorem push (hc : IsOpenChain blocks h chain) {b : Block} (hparent : b.parent = h)
    (hopen : b.complete = false) :
    IsOpenChain (blocks.push b) blocks.size (blocks.size :: chain) where
  parents := by
    refine ⟨rfl, b, Array.getElem?_push_size, ?_⟩
    rw [hparent]
    refine hc.parents.congr fun n hn => ?_
    rw [Array.getElem?_push, if_neg (Nat.ne_of_lt (hc.lt_size hn))]
  decreasing := List.pairwise_cons.mpr ⟨fun n hn => hc.lt_size hn, hc.decreasing⟩
  mem_iff := by
    intro n
    rw [List.mem_cons]
    constructor
    · rintro (rfl | hn)
      · exact ⟨b, Array.getElem?_push_size, hopen⟩
      · obtain ⟨c, hc', hcopen⟩ := (hc.mem_iff n).mp hn
        refine ⟨c, ?_, hcopen⟩
        rw [Array.getElem?_push, if_neg (Nat.ne_of_lt (hc.lt_size hn)), hc']
    · rintro ⟨c, hc', hcopen⟩
      rcases getElem?_push_cases hc' with hold | ⟨hn, -⟩
      · exact .inr ((hc.mem_iff n).mpr ⟨c, hold, hcopen⟩)
      · exact .inl hn

/-- Completing the innermost block leaves those around it. -/
theorem complete {n : Nat} (hc : IsOpenChain blocks n chain) {b : Block}
    (hb : blocks[n]? = some b) (hopen : b.complete = false) :
    ∃ outer, chain = n :: outer ∧
      IsOpenChain (blocks.setIfInBounds n { b with complete := true }) b.parent outer := by
  have hn : n ∈ chain := (hc.mem_iff n).mpr ⟨b, hb, hopen⟩
  cases chain with
  | nil => cases hn
  | cons m outer =>
      obtain ⟨hm, b', hb', houter⟩ := hc.parents
      obtain rfl : n = m := by exact_mod_cast hm
      cases hb.symm.trans hb'
      obtain ⟨hlt, hdecreasing⟩ := List.pairwise_cons.mp hc.decreasing
      have hset {m : Nat} (hm : m ≠ n) :
          (blocks.setIfInBounds n { b with complete := true })[m]? = blocks[m]? := by
        rw [Array.getElem?_setIfInBounds, if_neg (Ne.symm hm)]
      refine ⟨outer, rfl, ?_, hdecreasing, ?_⟩
      · exact houter.congr fun m hm => hset (Nat.ne_of_lt (hlt m hm))
      · intro m
        constructor
        · intro hm
          obtain ⟨c, hc', hcopen⟩ := (hc.mem_iff m).mp (List.mem_cons_of_mem n hm)
          exact ⟨c, (hset (Nat.ne_of_lt (hlt m hm))).trans hc', hcopen⟩
        · rintro ⟨c, hc', hcopen⟩
          rcases getElem?_complete_cases hb hc' with ⟨hm, hold⟩ | ⟨-, rfl⟩
          · have hmem := (hc.mem_iff m).mpr ⟨c, hold, hcopen⟩
            exact (List.mem_cons.mp hmem).resolve_left hm
          · cases hcopen

end IsOpenChain

namespace Arena

variable {a a' a'' : Arena} {c : ArenaCall} {answer : ArenaAnswer}

/-- A guard belongs to one block only. -/
theorem Nested.eq_of_start_eq (h : a.Nested) {m n : Nat} {b c : Block}
    (hb : a.blocks[m]? = some b) (hc : a.blocks[n]? = some c) (hbloop : b.loop = true)
    (hcloop : c.loop = true) (hstart : b.start = c.start) : m = n := by
  rcases Nat.lt_trichotomy m n with hlt | heq | hgt
  · have := h.start_lt_start hb hc hlt hbloop
    omega
  · exact heq
  · have := h.start_lt_start hc hb hgt hcloop
    omega

namespace Evolves

theorem refl (a : Arena) : a.Evolves a where
  size_le := Nat.le_refl _
  fresh hb hn := absurd (Array.getElem?_eq_some_iff.mp hb).1 (Nat.not_lt.mpr hn)
  block := .inl
  instruction := .inl

/-- An instruction that is not the guard of an open loop block stays as it is. -/
theorem instruction_of_op_ne (h : a.Evolves a') (hn : a.Nested) {k : Nat} {x : Instruction}
    (hx : a.code[k]? = some x) (hop : x.op ≠ some .loopStart) : a'.code[k]? = some x := by
  rcases h.instruction hx with hsame | ⟨n, b, target, hb, hloop, -, rfl, -, -⟩
  · exact hsame
  · obtain ⟨guard, hguard, hguardop, -⟩ := hn.guarded hb hloop
    cases hx.symm.trans hguard
    exact absurd hguardop hop

/-- A guard stays as it is as long as its block does. -/
theorem guard_of_block (h : a.Evolves a') (hn : a.Nested) {n : Nat} {b : Block} {x : Instruction}
    (hb : a.blocks[n]? = some b) (hb' : a'.blocks[n]? = some b) (hloop : b.loop = true)
    (hx : a.code[b.start]? = some x) : a'.code[b.start]? = some x := by
  rcases h.instruction hx with hsame | ⟨m, c, target, hc, hcloop, hcopen, hstart, hc', -⟩
  · exact hsame
  · obtain rfl : m = n := hn.eq_of_start_eq hc hb hcloop hloop hstart
    cases hb.symm.trans hc
    have hcomplete : b = { b with complete := true } := Option.some.inj (hb'.symm.trans hc')
    rw [hcomplete] at hcopen
    cases hcopen

/-- Nothing that was settled changes later: a guard whose target has been set belongs to a block
that is complete, and no other block has the same guard. -/
theorem trans (hn' : a'.Nested) (h : a.Evolves a') (h' : a'.Evolves a'') : a.Evolves a'' where
  size_le := Nat.le_trans h.size_le h'.size_le
  fresh := by
    intro n b hb hn
    by_cases hold : n < a'.blocks.size
    · have hb' : a'.blocks[n]? = some a'.blocks[n] := Array.getElem?_eq_getElem hold
      have hstart : a.code.size ≤ a'.blocks[n].start := h.fresh hb' hn
      rcases h'.block hb' with hsame | ⟨-, hcomplete⟩
      · cases hb.symm.trans hsame
        exact hstart
      · cases hb.symm.trans hcomplete
        exact hstart
    · exact Nat.le_trans h.size_le (h'.fresh hb (Nat.not_lt.mp hold))
  block := by
    intro n b hb
    rcases h.block hb with hsame | ⟨hopen, hcomplete⟩
    · exact h'.block hsame
    · rcases h'.block hcomplete with hsame' | ⟨hopen', -⟩
      · exact .inr ⟨hopen, hsame'⟩
      · cases hopen'
  instruction := by
    intro k x hx
    rcases h.instruction hx with hsame | ⟨n, b, target, hb, hloop, hopen, hstart, hb', hset⟩
    · rcases h'.instruction hsame with hsame' | ⟨n, b, target, hb, hloop, hopen, hstart, hb', hset⟩
      · exact .inl hsame'
      · -- the block was there before, since the instruction at its start was
        have hk : k < a.code.size := (Array.getElem?_eq_some_iff.mp hx).1
        have hn : n < a.blocks.size := by
          by_contra hfresh
          have := h.fresh hb (Nat.not_lt.mp hfresh)
          omega
        have hold : a.blocks[n]? = some a.blocks[n] := Array.getElem?_eq_getElem hn
        rcases h.block hold with hkept | ⟨-, hcomplete⟩
        · rw [hb] at hkept
          exact .inr ⟨n, b, target, hold.trans hkept.symm, hloop, hopen, hstart, hb', hset⟩
        · cases hb.symm.trans hcomplete
          cases hopen
    · have hcomplete : a''.blocks[n]? = some { b with complete := true } := by
        rcases h'.block hb' with hkept | ⟨hopen', -⟩
        · exact hkept
        · cases hopen'
      rcases h'.instruction hset with hsame | ⟨m, c, -, hc, hcloop, hcopen, hcstart, -, -⟩
      · exact .inr ⟨n, b, target, hb, hloop, hopen, hstart, hcomplete, hsame⟩
      · obtain rfl : m = n := hn'.eq_of_start_eq hc hb' hcloop hloop (hcstart.trans hstart.symm)
        cases hc.symm.trans hb'
        cases hcopen

/-- The guard of a block that stays as it is, with its exit. -/
theorem guarded_of_block (h : a.Evolves a') (hn : a.Nested) {n : Nat} {b : Block}
    (hb : a.blocks[n]? = some b) (hb' : a'.blocks[n]? = some b) (hloop : b.loop = true) :
    b.Guarded a'.code := by
  obtain ⟨guard, hguard, hop, hstate⟩ := hn.guarded hb hloop
  refine ⟨guard, h.guard_of_block hn hb hb' hloop hguard, hop, ?_⟩
  split at hstate
  next hcomplete =>
    rw [if_pos hcomplete]
    obtain ⟨last, exit, hexit, hexitop, hexittarget, htarget⟩ := hstate
    have hexit' : a'.code[last]? = some exit :=
      h.instruction_of_op_ne hn hexit (by simp [hexitop])
    exact ⟨last, exit, hexit', hexitop, hexittarget, htarget⟩
  next hopen =>
    rw [if_neg hopen]
    exact hstate

end Evolves

/-! ### One call -/

theorem codeOpened_getElem?_of_lt {k : Nat} (hk : k < a.code.size) (loop : Bool)
    (guard : Instruction) : (a.codeOpened loop guard)[k]? = a.code[k]? := by
  cases loop with
  | false => rfl
  | true => simp [codeOpened, Array.getElem?_push, Nat.ne_of_lt hk]

theorem size_le_codeOpened (a : Arena) (loop : Bool) (guard : Instruction) :
    a.code.size ≤ (a.codeOpened loop guard).size := by
  cases loop <;> simp [codeOpened]

theorem codeCompleted_getElem?_of_lt {k : Nat} (hk : k < a.code.size) (b : Block)
    (exit : Instruction) :
    (a.codeCompleted b exit)[k]? =
      if b.loop = true ∧ b.start = k then
        a.code[k]?.map fun guard => { guard with target := ((a.code.size + 1 : Nat) : Int) }
      else a.code[k]? := by
  unfold codeCompleted
  cases b.loop with
  | false => simp
  | true =>
      have hne : k ≠ a.code.size := Nat.ne_of_lt hk
      simp only [if_true, true_and, Array.getElem?_modify, Array.getElem?_push, if_neg hne]

/-- The exit of a loop block is the last of its instructions. -/
theorem codeCompleted_getElem?_size {b : Block} (hloop : b.loop = true)
    (hstart : b.start < a.code.size) (exit : Instruction) :
    (a.codeCompleted b exit)[a.code.size]? =
      some { exit with op := some .loopEnd, target := b.start } := by
  have hne : b.start ≠ a.code.size := Nat.ne_of_lt hstart
  rw [codeCompleted, if_pos hloop, Array.getElem?_modify, if_neg hne, Array.getElem?_push_size]

theorem size_le_codeCompleted (a : Arena) (b : Block) (exit : Instruction) :
    a.code.size ≤ (a.codeCompleted b exit).size := by
  unfold codeCompleted
  cases b.loop <;> simp

theorem Does.evolves (h : a.Does c answer a') : a.Evolves a' := by
  cases h with
  | opens loop guard =>
      constructor
      · exact size_le_codeOpened a loop guard
      · intro n b hb hn
        obtain rfl : n = a.blocks.size := by
          have := (Array.getElem?_eq_some_iff.mp hb).1
          simp only [Array.size_push] at this
          omega
        cases Array.getElem?_push_size.symm.trans hb
        exact Nat.le_refl _
      · intro n b hb
        have hn := (Array.getElem?_eq_some_iff.mp hb).1
        exact .inl (by rw [Array.getElem?_push, if_neg (Nat.ne_of_lt hn), hb])
      · intro k x hx
        have hk := (Array.getElem?_eq_some_iff.mp hx).1
        exact .inl (by rw [codeOpened_getElem?_of_lt hk, hx])
  | appends i =>
      constructor
      · simp
      · intro n b hb hn
        exact absurd (Array.getElem?_eq_some_iff.mp hb).1 (Nat.not_lt.mpr hn)
      · exact .inl
      · intro k x hx
        have hk := (Array.getElem?_eq_some_iff.mp hx).1
        exact .inl (by rw [Array.getElem?_push, if_neg (Nat.ne_of_lt hk), hx])
  | @completes n b exit hb hopen _ =>
      have hself : (a.blocks.setIfInBounds n { b with complete := true })[n]? =
          some { b with complete := true } := by
        have hn := (Array.getElem?_eq_some_iff.mp hb).1
        rw [Array.getElem?_setIfInBounds, if_pos rfl, if_pos hn]
      constructor
      · exact size_le_codeCompleted a b exit
      · intro m c hc hm
        have := (Array.getElem?_eq_some_iff.mp hc).1
        simp only [Array.size_setIfInBounds] at this
        omega
      · intro m c hc
        by_cases hm : n = m
        · subst hm
          cases hb.symm.trans hc
          exact .inr ⟨hopen, hself⟩
        · exact .inl (by rw [Array.getElem?_setIfInBounds, if_neg hm, hc])
      · intro k x hx
        have hk := (Array.getElem?_eq_some_iff.mp hx).1
        by_cases hguard : b.loop = true ∧ b.start = k
        · refine .inr ⟨n, b, ((a.code.size + 1 : Nat) : Int), hb, hguard.1, hopen, hguard.2, hself, ?_⟩
          rw [codeCompleted_getElem?_of_lt hk, if_pos hguard, hx]
          rfl
        · exact .inl (by rw [codeCompleted_getElem?_of_lt hk, if_neg hguard, hx])

theorem Nested.opens (h : a.Nested) (loop : Bool) (guard : Instruction) :
    Nested { blocks := a.blocks.push (a.blockOpened loop guard),
             code := a.codeOpened loop guard, innermost := a.blocks.size } := by
  have hevolves := (Does.opens loop guard : a.Does _ _ _).evolves
  constructor
  · obtain ⟨chain, hchain⟩ := h.exists_chain
    exact ⟨_, hchain.push rfl rfl⟩
  · intro n b hb
    rcases getElem?_push_cases hb with hold | ⟨-, rfl⟩
    · exact Nat.le_trans (h.start_le_size hold) hevolves.size_le
    · exact hevolves.size_le
  · intro m n b c hb hc hle
    rcases getElem?_push_cases hc with hcold | ⟨rfl, rfl⟩
    · rcases getElem?_push_cases hb with hbold | ⟨rfl, -⟩
      · exact h.start_le_start hbold hcold hle
      · exact absurd (Array.getElem?_eq_some_iff.mp hcold).1 (Nat.not_lt.mpr hle)
    · rcases getElem?_push_cases hb with hbold | ⟨-, rfl⟩
      · exact h.start_le_size hbold
      · exact Nat.le_refl _
  · intro m n b c hb hc hlt hloop
    have hn : n < a.blocks.size + 1 := by simpa using (Array.getElem?_eq_some_iff.mp hc).1
    rcases getElem?_push_cases hb with hbold | ⟨rfl, -⟩
    · rcases getElem?_push_cases hc with hcold | ⟨-, rfl⟩
      · exact h.start_lt_start hbold hcold hlt hloop
      · -- the guard of the older block is there already
        obtain ⟨x, hx, -⟩ := h.guarded hbold hloop
        exact (Array.getElem?_eq_some_iff.mp hx).1
    · omega
  · intro n b hb hloop
    rcases getElem?_push_cases hb with hold | ⟨-, rfl⟩
    · exact hevolves.guarded_of_block h hold hb hloop
    · obtain rfl : loop = true := hloop
      exact ⟨_, Array.getElem?_push_size, rfl, rfl⟩

theorem Nested.completes (h : a.Nested) {n : Nat} {b : Block} (hb : a.blocks[n]? = some b)
    (hopen : b.complete = false) (hinner : a.innermost = n) (exit : Instruction) :
    Nested { blocks := a.blocks.setIfInBounds n { b with complete := true },
             code := a.codeCompleted b exit, innermost := b.parent } := by
  have hevolves := (Does.completes exit hb hopen hinner : a.Does _ _ _).evolves
  have hold {m : Nat} {c : Block}
      (hc : (a.blocks.setIfInBounds n { b with complete := true })[m]? = some c) :
      ∃ c', a.blocks[m]? = some c' ∧ c'.start = c.start ∧ c'.loop = c.loop := by
    rcases getElem?_complete_cases hb hc with ⟨-, hsame⟩ | ⟨rfl, rfl⟩
    · exact ⟨c, hsame, rfl, rfl⟩
    · exact ⟨b, hb, rfl, rfl⟩
  constructor
  · obtain ⟨chain, hchain⟩ := h.exists_chain
    rw [hinner] at hchain
    obtain ⟨outer, -, houter⟩ := hchain.complete hb hopen
    exact ⟨outer, houter⟩
  · intro m c hc
    obtain ⟨c', hc', hstart, -⟩ := hold hc
    rw [← hstart]
    exact Nat.le_trans (h.start_le_size hc') hevolves.size_le
  · intro l m c d hc hd hle
    obtain ⟨c', hc', hcstart, -⟩ := hold hc
    obtain ⟨d', hd', hdstart, -⟩ := hold hd
    rw [← hcstart, ← hdstart]
    exact h.start_le_start hc' hd' hle
  · intro l m c d hc hd hlt hloop
    obtain ⟨c', hc', hcstart, hcloop⟩ := hold hc
    obtain ⟨d', hd', hdstart, -⟩ := hold hd
    rw [← hcstart, ← hdstart]
    exact h.start_lt_start hc' hd' hlt (hcloop.trans hloop)
  · intro m c hc hloop
    rcases getElem?_complete_cases hb hc with ⟨-, hsame⟩ | ⟨rfl, rfl⟩
    · exact hevolves.guarded_of_block h hsame hc hloop
    · obtain ⟨guard, hguard, hop, -⟩ := h.guarded hb hloop
      have hstart := (Array.getElem?_eq_some_iff.mp hguard).1
      refine ⟨{ guard with target := ((a.code.size + 1 : Nat) : Int) }, ?_, hop, ?_⟩
      · rw [codeCompleted_getElem?_of_lt hstart, if_pos ⟨hloop, rfl⟩, hguard]
        rfl
      · exact ⟨a.code.size, _, codeCompleted_getElem?_size hloop hstart exit, rfl, rfl, rfl⟩

theorem Does.nested (h : a.Does c answer a') (hn : a.Nested) : a'.Nested := by
  cases h with
  | opens loop guard => exact hn.opens loop guard
  | appends i hb hopen hinner =>
      have hevolves := (Does.appends i hb hopen hinner : a.Does _ _ _).evolves
      exact
        { exists_chain := hn.exists_chain
          start_le_size := fun hb => Nat.le_trans (hn.start_le_size hb) hevolves.size_le
          start_le_start := hn.start_le_start
          start_lt_start := hn.start_lt_start
          guarded := fun hb => hevolves.guarded_of_block hn hb hb }
  | completes exit hb hopen hinner => exact hn.completes hb hopen hinner exit

end Arena

end Brainfuck
