import Brainfuck.Proofs.Compilation

/-!
# Calls on an arena

A caller may make the calls on an arena in any order and with any handles. A call is given here
twice: as a function that answers with a new arena, and as a procedure that changes the arena one
write at a time, so that a fault could leave a change half made. The two agree.

## Main Definitions

* `ArenaCall`, `ArenaAnswer` — a call on an arena, and what it returns
* `Arena.perform` — a call as a function
* `Arena.Does` — what a call does if it is no fault
* `ArenaCall.carryOut` — a call write by write

## Main Results

* `Arena.does_of_perform` — a call that is no fault does what it is for
* `ArenaCall.run_carryOut` — a fault strikes before the first write

## Design Notes

A procedure keeps what it has written when a fault stops it. Only two faults could come after a
write: setting the target of a guard that is not there, and returning code from an index behind the
end. Neither happens as long as no block starts behind the code.
-/

namespace Brainfuck

/-! ## Calls -/

/-- A call on an arena. -/
inductive ArenaCall where
  | openBlock (parent : Handle) (loop : Bool) (guard : Instruction)
  | append (h : Handle) (i : Instruction)
  | complete (h : Handle) (exit : Instruction)

/-- What a call on an arena returns. -/
inductive ArenaAnswer where
  | handle (h : Handle)
  | done
  | code (code : Code)

namespace Arena

/-- Makes a call: its answer and the arena after it. Completing a block returns its code. -/
def perform (a : Arena) : ArenaCall → Except Fault (ArenaAnswer × Arena)
  | .openBlock parent loop guard =>
    (a.openBlock parent loop guard).map fun (h, a) => (.handle h, a)
  | .append h i => (a.append h i).map fun a => (.done, a)
  | .complete h exit =>
    (a.get h).bind fun b =>
      (a.complete h exit).map fun a => (.code (a.codeFrom b.start), a)

/-- The code after a block was opened. -/
def codeOpened (a : Arena) (loop : Bool) (guard : Instruction) : Code :=
  if loop then a.code.push { guard with op := some .loopStart, target := 0 } else a.code

/-- The code after a block was completed. -/
def codeCompleted (a : Arena) (b : Block) (exit : Instruction) : Code :=
  if b.loop then
    (a.code.push { exit with op := some .loopEnd, target := b.start }).modify b.start
      fun guard => { guard with target := ((a.code.size + 1 : Nat) : Int) }
  else a.code

/-- The block that a call opens. -/
def blockOpened (a : Arena) (loop : Bool) (guard : Instruction) : Block where
  parent := a.innermost
  loop := loop
  opened := if loop then guard.position else Position.implicit
  start := a.code.size

/-- What a call does if it is no fault. -/
inductive Does (a : Arena) : ArenaCall → ArenaAnswer → Arena → Prop where
  | opens (loop : Bool) (guard : Instruction) :
      Does a (.openBlock a.innermost loop guard) (.handle a.blocks.size)
        { blocks := a.blocks.push (a.blockOpened loop guard),
          code := a.codeOpened loop guard, innermost := a.blocks.size }
  | appends {n : Nat} {b : Block} (i : Instruction) :
      a.blocks[n]? = some b → b.complete = false → a.innermost = n →
      Does a (.append n i) .done { a with code := a.code.push i }
  | completes {n : Nat} {b : Block} (exit : Instruction) :
      a.blocks[n]? = some b → b.complete = false → a.innermost = n →
      Does a (.complete n exit)
        (.code ((a.codeCompleted b exit).extract b.start (a.codeCompleted b exit).size))
        { blocks := a.blocks.setIfInBounds n { b with complete := true },
          code := a.codeCompleted b exit, innermost := b.parent }

variable {a a' a'' : Arena} {c : ArenaCall} {answer : ArenaAnswer}

theorem openBlock_eq (a : Arena) (parent : Handle) (loop : Bool) (guard : Instruction) :
    a.openBlock parent loop guard =
      if parent = a.innermost then
        .ok ((a.blocks.size : Int),
          { blocks := a.blocks.push (a.blockOpened loop guard),
            code := a.codeOpened loop guard, innermost := a.blocks.size })
      else .error (.openInside parent a.innermost) := by
  unfold openBlock
  by_cases hparent : parent = a.innermost
  · cases loop <;> simp [hparent, blockOpened, codeOpened]
  · simp [hparent]

theorem append_eq (a : Arena) (h : Handle) (i : Instruction) :
    a.append h i = (a.getInnermost .append h).map fun _ => { a with code := a.code.push i } := by
  unfold append
  cases a.getInnermost .append h <;> rfl

theorem complete_eq (a : Arena) (h : Handle) (exit : Instruction) :
    a.complete h exit = (a.getInnermost .complete h).map fun b =>
      { blocks := a.blocks.setIfInBounds h.toNat { b with complete := true },
        code := a.codeCompleted b exit, innermost := b.parent } := by
  unfold complete
  cases a.getInnermost .complete h with
  | error f => rfl
  | ok b => cases hloop : b.loop <;> simp [Except.map, codeCompleted, hloop]

theorem get_eq_ok {h : Handle} {b : Block} (hget : a.get h = .ok b) :
    ∃ n : Nat, h = n ∧ a.blocks[n]? = some b := by
  unfold get at hget
  split at hget
  next hnonneg =>
    split at hget
    next b' hb =>
      cases hget
      exact ⟨h.toNat, (Int.toNat_of_nonneg hnonneg).symm, hb⟩
    next => cases hget
  next => cases hget

/-- The innermost open block, where a call on it is no fault. -/
theorem exists_of_getInnermost {action : BlockAction} {h : Handle} {b : Block}
    (hget : a.getInnermost action h = .ok b) :
    ∃ n : Nat, h = n ∧ a.blocks[n]? = some b ∧ b.complete = false ∧ a.innermost = n := by
  unfold getInnermost at hget
  cases hblock : a.get h with
  | error f =>
      rw [hblock] at hget
      cases hget
  | ok b' =>
      rw [hblock] at hget
      simp only [bind, Except.bind] at hget
      split at hget
      next => cases hget
      next hopen =>
        split at hget
        next hinner =>
          cases hget
          obtain ⟨n, rfl, hb⟩ := get_eq_ok hblock
          exact ⟨n, rfl, hb, by simpa using hopen, hinner.symm⟩
        next => cases hget

theorem perform_complete_eq (a : Arena) (h : Handle) (exit : Instruction) :
    a.perform (.complete h exit) = (a.getInnermost .complete h).map fun b =>
      (.code ((a.codeCompleted b exit).extract b.start (a.codeCompleted b exit).size),
        { blocks := a.blocks.setIfInBounds h.toNat { b with complete := true },
          code := a.codeCompleted b exit, innermost := b.parent }) := by
  simp only [perform, complete_eq]
  cases hget : a.get h with
  | error f =>
      have hinner : a.getInnermost .complete h = .error f := by
        simp only [getInnermost, hget, bind, Except.bind]
      rw [hinner]
      rfl
  | ok b =>
      cases hinner : a.getInnermost .complete h with
      | error f => rfl
      | ok b' =>
          -- both look-ups find the same block
          obtain ⟨n, rfl, hb', -, -⟩ := exists_of_getInnermost hinner
          obtain ⟨m, hm, hb⟩ := get_eq_ok hget
          obtain rfl : n = m := by exact_mod_cast hm
          cases hb.symm.trans hb'
          rfl

theorem does_of_perform (h : a.perform c = .ok (answer, a')) : a.Does c answer a' := by
  cases c with
  | openBlock parent loop guard =>
      simp only [perform, openBlock_eq] at h
      by_cases hparent : parent = a.innermost
      · subst hparent
        rw [if_pos rfl] at h
        cases h
        exact .opens loop guard
      · rw [if_neg hparent] at h
        cases h
  | append handle i =>
      simp only [perform, append_eq] at h
      cases hget : a.getInnermost .append handle with
      | error f =>
          rw [hget] at h
          cases h
      | ok b =>
          rw [hget] at h
          cases h
          obtain ⟨n, rfl, hb, hopen, hinner⟩ := exists_of_getInnermost hget
          exact .appends i hb hopen hinner
  | complete handle exit =>
      rw [perform_complete_eq] at h
      cases hget : a.getInnermost .complete handle with
      | error f =>
          rw [hget] at h
          cases h
      | ok b =>
          rw [hget] at h
          cases h
          obtain ⟨n, rfl, hb, hopen, hinner⟩ := exists_of_getInnermost hget
          exact .completes exit hb hopen hinner

end Arena

/-! ## Calls write by write -/

namespace ArenaCall

/-- A procedure on an arena. It changes the arena as it goes, and a fault leaves what it has changed
so far. -/
abbrev Procedure := EStateM Fault Arena

/-- The block with a handle, which must be the innermost open one. -/
def check (action : BlockAction) (h : Handle) : Procedure Block := fun a =>
  match a.getInnermost action h with
  | .ok b => .ok b a
  | .error f => .error f a

/-- Sets the target of the instruction at an index to the end of the code. -/
def patch (index : Nat) : Procedure Unit := do
  let a ← get
  if index < a.code.size then
    set { a with code := a.code.modify index fun i => { i with target := (a.code.size : Int) } }
  else throw (.index index a.code.size)

/-- The code from an index on. -/
def codeFrom (start : Nat) : Procedure Code := do
  let a ← get
  if start ≤ a.code.size then return a.codeFrom start
  else throw (.index start a.code.size)

/-- A call write by write: the checks, then one field of the arena after the other. -/
def carryOut : ArenaCall → Procedure ArenaAnswer
  | openBlock parent loop guard => do
    let a ← get
    if parent ≠ a.innermost then throw (.openInside parent a.innermost)
    let block : Block :=
      { parent, loop, opened := if loop then guard.position else Position.implicit,
        start := a.code.size }
    if loop then
      modify fun a =>
        { a with code := a.code.push { guard with op := some .loopStart, target := 0 } }
    modify fun a => { a with blocks := a.blocks.push block }
    modify fun a => { a with innermost := (a.blocks.size : Int) - 1 }
    let a ← get
    return .handle a.innermost
  | append h i => do
    let _ ← check .append h
    modify fun a => { a with code := a.code.push i }
    return .done
  | complete h exit => do
    let b ← check .complete h
    modify fun a =>
      { a with blocks := a.blocks.modify h.toNat fun b => { b with complete := true } }
    modify fun a => { a with innermost := b.parent }
    if b.loop then
      modify fun a =>
        { a with code := a.code.push { exit with op := some .loopEnd, target := b.start } }
      patch b.start
    return .code (← codeFrom b.start)

/-- What becomes of a call that is made as a function: a fault leaves the arena as it was. -/
def settled (a : Arena) (c : ArenaCall) : EStateM.Result Fault Arena ArenaAnswer :=
  match a.perform c with
  | .ok (answer, a') => .ok answer a'
  | .error f => .error f a

theorem run_check (action : BlockAction) (h : Handle) (a : Arena) :
    (check action h).run a = match a.getInnermost action h with
      | .ok b => .ok b a
      | .error f => .error f a :=
  rfl

theorem run_patch {a : Arena} {index : Nat} (h : index < a.code.size) :
    (patch index).run a = .ok ()
      { a with code := a.code.modify index fun i => { i with target := (a.code.size : Int) } } := by
  simp [patch, h]

theorem run_codeFrom {a : Arena} {start : Nat} (h : start ≤ a.code.size) :
    (codeFrom start).run a = .ok (a.codeFrom start) a := by
  simp [codeFrom, h]

/-- A fault strikes before the first write: the target to be set and the code to be returned are
always there. -/
theorem run_carryOut {a : Arena}
    (hstart : ∀ {n : Nat} {b : Block}, a.blocks[n]? = some b → b.start ≤ a.code.size)
    (c : ArenaCall) : c.carryOut.run a = c.settled a := by
  cases c with
  | openBlock parent loop guard =>
      simp only [settled, Arena.perform, Arena.openBlock_eq]
      by_cases hparent : parent = a.innermost
      · cases loop <;>
          simp [carryOut, hparent, Except.map, Arena.blockOpened, Arena.codeOpened,
            -bind_pure_comp]
      · simp [carryOut, hparent, Except.map]
  | append h i =>
      simp only [settled, Arena.perform, Arena.append_eq, carryOut, EStateM.run_bind, run_check]
      cases a.getInnermost .append h <;> rfl
  | complete h exit =>
      simp only [settled, Arena.perform_complete_eq, carryOut, EStateM.run_bind, run_check]
      cases hget : a.getInnermost .complete h with
      | error f => rfl
      | ok b =>
          obtain ⟨n, rfl, hb, -, -⟩ := Arena.exists_of_getInnermost hget
          have hblocks : a.blocks.modify n (fun b => { b with complete := true }) =
              a.blocks.setIfInBounds n { b with complete := true } := by
            apply Array.ext_getElem?
            intro m
            rw [Array.getElem?_modify, Array.getElem?_setIfInBounds]
            by_cases hm : n = m
            · subst hm
              obtain ⟨hn, hbn⟩ := Array.getElem?_eq_some_iff.mp hb
              simp [hn, hbn]
            · simp [hm]
          have hsize : b.start ≤ a.code.size := hstart hb
          cases hloop : b.loop with
          | false =>
              simp [hloop, hblocks, Except.map, Arena.codeCompleted, run_codeFrom, hsize,
                Arena.codeFrom, -bind_pure_comp]
          | true =>
              have hlt : b.start < a.code.size + 1 := Nat.lt_succ_of_le hsize
              simp [hloop, hblocks, Except.map, Arena.codeCompleted, run_patch, run_codeFrom, hlt,
                Nat.le_of_lt hlt, Arena.codeFrom, -bind_pure_comp]

end ArenaCall

end Brainfuck
