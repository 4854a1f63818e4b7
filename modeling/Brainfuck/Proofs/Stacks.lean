import Brainfuck.Proofs.Arenas
import Brainfuck.Proofs.Tracing

/-!
# The stack of a compilation

A compilation keeps its nesting twice: the builder has a stack of handles, and the blocks of the
arena know their parents. The two never drift apart, neither while commands are read nor while
open loops are closed at the end. Hence every call on the arena names its innermost open block, and
a loop is closed only if there is one.

## Main Definitions

* `Builder.reading` — the builder after a number of commands
* `Builder.closing` — the builder after a number of loops was closed at the end
* `Builder.Aligned` — the stack is the chain of parents, and as long as the depth

## Main Results

* `Builder.accept_cases`, `Builder.closeLoop_cases` — what a step does to the arena and the stack
* `Builder.Represents.aligned` — a builder that holds a draft is aligned
* `stack_follows_parents` — the stack at every step of a compilation, which never faults

## Design Notes

That a step succeeds and keeps the chain of parents is known from the draft that a builder holds. A
draft does not say that there are no other open blocks; this comes from the arena, which keeps its
blocks nested whatever calls are made on it.
-/

namespace Brainfuck

/-! ## Chains of parents -/

theorem Arena.get_of_getElem? {a : Arena} {n : Nat} {b : Block} (h : a.blocks[n]? = some b) :
    a.get n = .ok b := by
  simp [Arena.get, h]

/-- A block has only one chain of parents. -/
theorem IsParentChain.unique {blocks : Array Block} {h : Handle} {chain chain' : List Nat}
    (hc : IsParentChain blocks h chain) (hc' : IsParentChain blocks h chain') : chain = chain' := by
  induction chain generalizing h chain' with
  | nil =>
      cases chain' with
      | nil => rfl
      | cons n outer =>
          have hnone : h = Handle.none := hc
          obtain ⟨rfl, -⟩ := hc'
          cases hnone
  | cons n outer ih =>
      obtain ⟨rfl, b, hb, houter⟩ := hc
      cases chain' with
      | nil =>
          have hnone : (n : Int) = Handle.none := hc'
          cases hnone
      | cons n' outer' =>
          obtain ⟨hn, b', hb', houter'⟩ := hc'
          obtain rfl : n = n' := by exact_mod_cast hn
          cases hb.symm.trans hb'
          rw [ih houter houter']

namespace OpenChain

variable {a : Arena} {h : Int} {stack : List Int} {guards : List Guard}

/-- The head of a chain and its stack are a chain of parents. -/
theorem exists_parents (hc : OpenChain a.blocks h stack guards) :
    ∃ handles : List Nat, h :: stack = handles.map Int.ofNat ∧
      IsParentChain a.blocks h handles := by
  induction hc with
  | @root n hblock => exact ⟨[n], rfl, rfl, _, hblock, rfl⟩
  | @loop n parent stack g outer hblock _ _ ih =>
      obtain ⟨handles, hhandles, hparents⟩ := ih
      exact ⟨n :: handles, by rw [hhandles]; rfl, rfl, _, hblock, hparents⟩

/-- All blocks of a chain but the last are open loops. -/
theorem get_loop (hc : OpenChain a.blocks h stack guards) :
    ∀ k ∈ (h :: stack).dropLast, ∃ block, a.get k = .ok block ∧ block.loop = true ∧
      block.complete = false := by
  induction hc with
  | root _ => simp
  | @loop n parent stack g outer hblock _ _ ih =>
      intro k hk
      rw [List.dropLast_cons_of_ne_nil (List.cons_ne_nil parent stack), List.mem_cons] at hk
      rcases hk with rfl | hk
      · exact ⟨_, Arena.get_of_getElem? hblock, rfl, rfl⟩
      · exact ih k hk

/-- The last block of a chain is the root. -/
theorem get_root (hc : OpenChain a.blocks h stack guards) :
    ∃ k block, (h :: stack).getLast? = some k ∧ a.get k = .ok block ∧ block.loop = false ∧
      block.complete = false ∧ block.parent = Handle.none := by
  induction hc with
  | @root n hblock => exact ⟨n, _, rfl, Arena.get_of_getElem? hblock, rfl, rfl, rfl⟩
  | @loop n parent stack g outer _ _ _ ih =>
      rw [List.getLast?_cons_cons]
      exact ih

end OpenChain

/-! ## Steps and the arena -/

namespace Arena

variable {a a' : Arena}

theorem Nested.of_openBlock (hn : a.Nested) {parent h : Handle} {loop : Bool} {guard : Instruction}
    (hopen : a.openBlock parent loop guard = .ok (h, a')) : a'.Nested := by
  have hperform : a.perform (.openBlock parent loop guard) = .ok (.handle h, a') := by
    rw [perform, hopen]
    rfl
  exact (does_of_perform hperform).nested hn

theorem Nested.of_append (hn : a.Nested) {h : Handle} {i : Instruction}
    (happend : a.append h i = .ok a') : a'.Nested := by
  have hperform : a.perform (.append h i) = .ok (.done, a') := by
    rw [perform, happend]
    rfl
  exact (does_of_perform hperform).nested hn

theorem Nested.of_complete (hn : a.Nested) {h : Handle} {exit : Instruction}
    (hcomplete : a.complete h exit = .ok a') : a'.Nested := by
  obtain ⟨b, hb⟩ : ∃ b, a.getInnermost .complete h = .ok b := by
    rw [complete_eq] at hcomplete
    cases hget : a.getInnermost .complete h with
    | error f =>
        rw [hget] at hcomplete
        cases hcomplete
    | ok b => exact ⟨b, rfl⟩
  obtain ⟨n, rfl, hblock, -, -⟩ := exists_of_getInnermost hb
  have hperform : a.perform (.complete n exit) = .ok (.code (a'.codeFrom b.start), a') := by
    rw [perform, get_of_getElem? hblock, hcomplete]
    rfl
  exact (does_of_perform hperform).nested hn

end Arena

namespace Builder

variable {b b' : Builder} {c : Command} {p : Position}

theorem bind_lift_eq_ok {α β : Type} {x : Except Fault α} {f : α → Except CompileError β} {y : β}
    (h : (lift x).bind f = .ok y) : ∃ a, x = .ok a ∧ f a = .ok y := by
  cases x with
  | error e => cases h
  | ok a => exact ⟨a, rfl, h⟩

/-- Closing a loop completes the current block, and the block on top of the stack becomes
current. -/
theorem closeLoop_cases (h : b.closeLoop p = .ok b') :
    b.stack = b'.current :: b'.stack ∧
      ∃ exit, b.arena.complete b.current exit = .ok b'.arena := by
  cases hstack : b.stack with
  | nil =>
      obtain ⟨arena, current, stack, recorder⟩ := b
      cases hstack
      obtain ⟨_, -, hempty⟩ := bind_lift_eq_ok h
      cases hempty
  | cons top stack =>
      rw [closeLoop_cons hstack] at h
      obtain ⟨arena, hcomplete, hb'⟩ := bind_lift_eq_ok h
      cases hb'
      exact ⟨rfl, _, hcomplete⟩

/-- What a command does to the arena and the stack. -/
theorem accept_cases (h : b.accept c p = .ok b') :
    (∃ a : Primitive, c = a.command ∧ b'.current = b.current ∧ b'.stack = b.stack ∧
      ∃ i, b.arena.append b.current i = .ok b'.arena) ∨
    (c = .loopStart ∧ b'.stack = b.current :: b.stack ∧
      ∃ guard, b.arena.openBlock b.current true guard = .ok (b'.current, b'.arena)) ∨
    (c = .loopEnd ∧ b.closeLoop p = .ok b') := by
  rcases c.primitive_or_bracket with ⟨a, rfl⟩ | rfl | rfl
  · rw [accept_primitive] at h
    obtain ⟨arena, happend, hb'⟩ := bind_lift_eq_ok h
    cases hb'
    exact .inl ⟨a, rfl, rfl, rfl, _, happend⟩
  · rw [accept_loopStart] at h
    obtain ⟨⟨inner, arena⟩, hopen, hb'⟩ := bind_lift_eq_ok h
    cases hb'
    exact .inr (.inl ⟨rfl, rfl, _, hopen⟩)
  · rw [accept] at h
    split at h
    · cases h
    · exact .inr (.inr ⟨rfl, h⟩)

theorem nested_start {recorder : Option Recorder} (h : start recorder = .ok b) :
    b.arena.Nested := by
  have hopen : ∃ handle a, Arena.empty.openBlock Handle.none false {} = .ok (handle, a) ∧
      start recorder = .ok { arena := a, current := handle, stack := [], recorder } :=
    ⟨_, _, rfl, rfl⟩
  obtain ⟨handle, a, hopen, hstart⟩ := hopen
  cases hstart.symm.trans h
  exact Arena.nested_empty.of_openBlock hopen

theorem nested_closeLoop (hn : b.arena.Nested) (h : b.closeLoop p = .ok b') : b'.arena.Nested := by
  obtain ⟨-, exit, hcomplete⟩ := closeLoop_cases h
  exact hn.of_complete hcomplete

theorem nested_accept (hn : b.arena.Nested) (h : b.accept c p = .ok b') : b'.arena.Nested := by
  rcases accept_cases h with ⟨a, -, -, -, i, happend⟩ | ⟨-, -, guard, hopen⟩ | ⟨-, hclose⟩
  · exact hn.of_append happend
  · exact hn.of_openBlock hopen
  · exact nested_closeLoop hn hclose

/-- What one step keeps is kept by any number of steps. -/
theorem nested_foldlM {α : Type} {step : Builder → α → Except CompileError Builder}
    (hstep : ∀ {b x b'}, b.arena.Nested → step b x = .ok b' → b'.arena.Nested)
    (hn : b.arena.Nested) {xs : List α} (h : xs.foldlM step b = .ok b') : b'.arena.Nested := by
  induction xs generalizing b with
  | nil =>
      cases h
      exact hn
  | cons x xs ih =>
      rw [List.foldlM_cons] at h
      cases hx : step b x with
      | error e =>
          rw [hx] at h
          cases h
      | ok b₁ =>
          rw [hx] at h
          exact ih (hstep hn hx) h

/-! ## The two loops of a compilation -/

/-- The builder after the first `k` commands of a source. -/
def reading (recorder : Option Recorder) (source : Feed) (k : Nat) : Except CompileError Builder :=
  (start recorder).bind (((commands source.bytes).take k).foldlM acceptAt)

/-- The builder after `k` of its open loops were closed at the end of a source. -/
def closing (b : Builder) (k : Nat) : Except CompileError Builder :=
  (b.stack.take k).foldlM (fun b _ => b.closeLoop Position.implicit) b

/-- A compilation reads all commands, and then closes all open loops. -/
theorem run_eq_reading (strict : Bool) (recorder : Option Recorder) (source : Feed) :
    run strict recorder source =
      (reading recorder source (commands source.bytes).length).bind fun b =>
        match source.failure with
        | some m => .error (.unreadable m)
        | none => (b.closeAll strict).bind finish := by
  rw [run, reading, List.take_length]
  simp only [foldCommands_eq_foldlM]
  cases start recorder <;> rfl

theorem closeAll_eq_closing (b : Builder) : b.closeAll false = b.closing b.stack.length := by
  rw [closing, List.take_length]
  rfl

/-- The stack of a builder and the parents in its arena agree on the nesting, inside `loops` loops. -/
structure Aligned (b : Builder) (loops : Int) : Prop where
  innermost : b.arena.innermost = b.current
  /-- The current block and the stack, top first, are a chain of parents, and all open blocks. -/
  chain : ∃ handles : List Nat, b.current :: b.stack = handles.map Int.ofNat ∧
    IsOpenChain b.arena.blocks b.current handles
  loop : ∀ h ∈ (b.current :: b.stack).dropLast, ∃ block, b.arena.get h = .ok block ∧
    block.loop = true ∧ block.complete = false
  root : ∃ h block, (b.current :: b.stack).getLast? = some h ∧ b.arena.get h = .ok block ∧
    block.loop = false ∧ block.complete = false ∧ block.parent = Handle.none
  length_eq : (b.stack.length : Int) = loops

/-- A builder that holds a draft is aligned. -/
theorem Represents.aligned {trace : Option Recorder} {d : Draft} (h : b.Represents trace d)
    (hn : b.arena.Nested) : b.Aligned d.guards.length where
  innermost := h.innermost
  chain := by
    obtain ⟨handles, hhandles, hparents⟩ := h.chain.exists_parents
    obtain ⟨chain, hchain⟩ := hn.exists_chain
    rw [h.innermost] at hchain
    obtain rfl := hparents.unique hchain.parents
    exact ⟨handles, hhandles, hchain⟩
  loop := h.chain.get_loop
  root := h.chain.get_root
  length_eq := by rw [h.chain.stack_length]

variable {settings : CompileSettings} {source : Feed} {k : Nat}

/-- While commands are read, the builder holds their draft. -/
theorem exists_draft_of_reading (h : reading (Program.recorder settings) source k = .ok b) :
    ∃ d, b.Represents (Program.recorder settings) d ∧ b.arena.Nested ∧
      (d.guards.length : Int) = depth (((commands source.bytes).take k).map Prod.fst) := by
  obtain ⟨b₀, hstart, h₀⟩ := start_represents (Program.recorder settings)
  have hn₀ := nested_start hstart
  rw [Program.recorder_describing] at hstart
  rw [reading, hstart] at h
  cases hrun : Draft.empty.run (Program.recorder settings).isSome
      ((commands source.bytes).take k) with
  | error e =>
      have herror := h₀.foldlM_eq_error hrun
      cases h.symm.trans herror
  | ok d =>
      obtain ⟨b', hb', h'⟩ := h₀.foldlM hrun
      cases h.symm.trans hb'
      have hlength := Draft.run_guards_length hrun
      rw [Draft.empty, List.length_nil, Int.natCast_zero, Int.zero_add] at hlength
      exact ⟨d, h', nested_foldlM nested_accept hn₀ h, hlength⟩

theorem aligned_of_reading (h : reading (Program.recorder settings) source k = .ok b) :
    b.Aligned (depth (((commands source.bytes).take k).map Prod.fst)) := by
  obtain ⟨d, hd, hn, hlength⟩ := exists_draft_of_reading h
  rw [← hlength]
  exact hd.aligned hn

/-- An open loop can always be closed, and the builder stays aligned. -/
theorem aligned_of_closing (h : reading (Program.recorder settings) source k = .ok b) {j : Nat}
    (hj : j ≤ b.stack.length) :
    ∃ b', b.closing j = .ok b' ∧
      b'.Aligned (depth (((commands source.bytes).take k).map Prod.fst) - j) := by
  obtain ⟨d, hd, hn, hlength⟩ := exists_draft_of_reading h
  have hstack := hd.chain.stack_length
  have htake : (b.stack.take j).length = j := List.length_take_of_le hj
  have hle : (b.stack.take j).length ≤ d.guards.length := by omega
  obtain ⟨b', d', hclose, -, hguards, hd'⟩ := hd.closeLoops hle
  have hleft : (d'.guards.length : Int) =
      depth (((commands source.bytes).take k).map Prod.fst) - j := by
    rw [hguards, htake, List.length_drop, ← hlength]
    omega
  refine ⟨b', hclose, ?_⟩
  rw [← hleft]
  exact hd'.aligned (nested_foldlM nested_closeLoop hn hclose)

end Builder

/-- **The stack of a compilation is the chain of parents.** A compilation reads the commands of its
source one by one and then closes the loops that are left open one by one. At each of these steps
the current block is the innermost open block of the arena; the current block and the stack, from
its top, are the open blocks, each the parent of the one before; all but the last of them are loops
that are not complete, and the last is the root. The stack is as long as the brackets are deep. So a
compilation ends in a program, in a bracket error, or in an error of its feed or its trace, and
never in a fault of the arena or of the stack. -/
theorem stack_follows_parents (settings : CompileSettings) (source : Feed) (disk : Disk) :
    let recorder := Program.recorder settings
    let cs := commands source.bytes
    (∀ strict, Builder.run strict recorder source =
      (Builder.reading recorder source cs.length).bind fun b =>
        match source.failure with
        | some m => .error (.unreadable m)
        | none => (b.closeAll strict).bind Builder.finish) ∧
    (∀ b : Builder, b.closeAll false = b.closing b.stack.length) ∧
    (∀ k b, Builder.reading recorder source k = .ok b →
      b.Aligned (depth ((cs.take k).map Prod.fst))) ∧
    (∀ b, Builder.reading recorder source cs.length = .ok b → ∀ k ≤ b.stack.length,
      ∃ b', b.closing k = .ok b' ∧ b'.Aligned (depth (cs.map Prod.fst) - k)) ∧
    ∀ f, (Program.compile settings source disk).1 ≠ .error (.fault f) := by
  intro recorder cs
  refine ⟨fun strict => Builder.run_eq_reading strict recorder source,
    Builder.closeAll_eq_closing, fun k b hb => Builder.aligned_of_reading hb, ?_, ?_⟩
  · intro b hb k hk
    have hclosed := Builder.aligned_of_closing hb hk
    rwa [List.take_length] at hclosed
  · intro f hf
    rcases Program.compile_error_cases hf with ⟨⟨cause, he⟩ | ⟨m, he⟩⟩ | ⟨cause, he⟩ <;> cases he

/-- Two loops that the source leaves open around a third that it closes. The handle of the third is
not used again: the stack has the first two, and one of them is left when one was closed. -/
theorem stack_follows_parents_of_open_loops :
    ∃ b b', Builder.reading none { bytes := text "[[][+" } 5 = .ok b ∧ b.current = 3 ∧
      b.stack = [1, 0] ∧ b.Aligned 2 ∧ b.closing 1 = .ok b' ∧ b'.current = 1 ∧ b'.stack = [0] ∧
      b'.Aligned 1 := by
  obtain ⟨-, -, hreading, hclosing, -⟩ := stack_follows_parents {} { bytes := text "[[][+" } {}
  have hread : ∃ b b', Builder.reading none { bytes := text "[[][+" } 5 = .ok b ∧
      b.current = 3 ∧ b.stack = [1, 0] ∧ b.closing 1 = .ok b' ∧ b'.current = 1 ∧
      b'.stack = [0] := ⟨_, _, rfl, rfl, rfl, rfl, rfl, rfl⟩
  obtain ⟨b, b', hb, hcurrent, hstack, hb', hcurrent', hstack'⟩ := hread
  obtain ⟨b'', hb'', haligned⟩ := hclosing b hb 1 (by rw [hstack]; decide)
  cases hb'.symm.trans hb''
  exact ⟨b, b', hb, hcurrent, hstack, hreading 5 b hb, hb', hcurrent', hstack', haligned⟩

end Brainfuck
