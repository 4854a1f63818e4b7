import Brainfuck.Proofs.Draft

/-!
# Compilations

A compilation keeps its open loops as a stack of handles into an arena of blocks. Here it is shown
to build the draft of its commands: the blocks on the stack are the open guards of the draft, and
no call on the arena is ever out of order.

## Main Definitions

* `OpenChain` — the open blocks of an arena, as they hang together by their parents
* `Builder.Represents` — a builder holds a draft
* `closed` — a command sequence with the closing brackets that it lacks

## Main Results

* `Builder.Represents.accept` — one command has the same effect on both
* `Builder.run_eq_unmatched`, `Builder.run_eq_unreadable`, `Builder.run_eq_unclosed`,
  `Builder.run_eq_ok` — the result of a compilation, from the draft of its commands
* `Program.exists_draft_of_compile` — compiled code is the draft of the closed commands

## Design Notes

Handles grow: the blocks around an open block were all opened before it. A block that is opened or
completed is therefore never one of those that stay on the stack.
-/

namespace Brainfuck

/-! ## Calls on the innermost block -/

namespace Arena

theorem getInnermost_eq_ok {a : Arena} {n : Nat} {b : Block} (hb : a.blocks[n]? = some b)
    (hopen : b.complete = false) (hinner : a.innermost = n) (action : BlockAction) :
    a.getInnermost action n = .ok b := by
  have hget : a.get n = .ok b := by simp [get, hb]
  rw [getInnermost, hget]
  simp [bind, Except.bind, hopen, hinner]

theorem append_eq_ok {a : Arena} {n : Nat} {b : Block} (hb : a.blocks[n]? = some b)
    (hopen : b.complete = false) (hinner : a.innermost = n) (i : Instruction) :
    a.append n i = .ok { a with code := a.code.push i } := by
  rw [append, getInnermost_eq_ok hb hopen hinner]

theorem openBlock_loop_eq_ok {a : Arena} {h : Handle} (hinner : a.innermost = h)
    (guard : Instruction) :
    a.openBlock h true guard = .ok ((a.blocks.size : Int),
      { blocks := a.blocks.push
          { parent := h, loop := true, opened := guard.position, start := a.code.size },
        code := a.code.push { guard with op := some .loopStart, target := 0 },
        innermost := (a.blocks.size : Int) }) := by
  rw [openBlock, if_pos hinner.symm]
  rfl

theorem complete_loop_eq_ok {a : Arena} {n : Nat} {b : Block} (hb : a.blocks[n]? = some b)
    (hopen : b.complete = false) (hloop : b.loop = true) (hinner : a.innermost = n)
    (exit : Instruction) :
    a.complete n exit = .ok
      { blocks := a.blocks.setIfInBounds n { b with complete := true },
        code := (a.code.push { exit with op := some .loopEnd, target := b.start }).modify b.start
          fun guard => { guard with target := ((a.code.size + 1 : Nat) : Int) },
        innermost := b.parent } := by
  rw [complete, getInnermost_eq_ok hb hopen hinner]
  simp [hloop]

theorem complete_plain_eq_ok {a : Arena} {n : Nat} {b : Block} (hb : a.blocks[n]? = some b)
    (hopen : b.complete = false) (hloop : b.loop = false) (hinner : a.innermost = n)
    (exit : Instruction) :
    a.complete n exit = .ok
      { blocks := a.blocks.setIfInBounds n { b with complete := true },
        code := a.code, innermost := b.parent } := by
  rw [complete, getInnermost_eq_ok hb hopen hinner]
  simp [hloop]

end Arena

/-! ## Open blocks -/

/-- The open blocks of an arena, from the innermost one along its parents to the root. Each loop
block stands for one open guard. -/
inductive OpenChain (blocks : Array Block) : Int → List Int → List Guard → Prop where
  | root {n : Nat} :
      blocks[n]? = some
        { parent := Handle.none, loop := false, opened := Position.implicit, start := 0 } →
      OpenChain blocks n [] []
  | loop {n : Nat} {parent : Int} {stack : List Int} {g : Guard}
      {outer : List Guard} :
      blocks[n]? = some { parent, loop := true, opened := g.opened, start := g.start } →
      parent < n → OpenChain blocks parent stack outer →
      OpenChain blocks n (parent :: stack) (g :: outer)

namespace OpenChain

variable {blocks blocks' : Array Block} {h : Int} {stack : List Int} {guards : List Guard}

/-- A chain depends on the blocks up to its head only. -/
theorem congr (hc : OpenChain blocks h stack guards)
    (hsame : ∀ n : Nat, (n : Int) ≤ h → n < blocks.size → blocks'[n]? = blocks[n]?) :
    OpenChain blocks' h stack guards := by
  induction hc with
  | @root n hblock =>
      have hsize := (Array.getElem?_eq_some_iff.mp hblock).1
      exact .root (by rw [hsame n (Int.le_refl _) hsize, hblock])
  | @loop n parent stack g outer hblock hlt _ ih =>
      have hsize := (Array.getElem?_eq_some_iff.mp hblock).1
      refine .loop (by rw [hsame n (Int.le_refl _) hsize, hblock]) hlt (ih fun m hm => ?_)
      exact hsame m (by omega)

theorem push (hc : OpenChain blocks h stack guards) (b : Block) :
    OpenChain (blocks.push b) h stack guards :=
  hc.congr fun n _ hn => by rw [Array.getElem?_push_lt hn, Array.getElem?_eq_getElem hn]

theorem set (hc : OpenChain blocks h stack guards) {n : Nat} (hn : h < n) (b : Block) :
    OpenChain (blocks.setIfInBounds n b) h stack guards :=
  hc.congr fun m hm _ => Array.getElem?_setIfInBounds_ne (by omega)

theorem stack_length (hc : OpenChain blocks h stack guards) : stack.length = guards.length := by
  induction hc with
  | root _ => rfl
  | loop _ _ _ ih => rw [List.length_cons, List.length_cons, ih]

/-- The head of a chain is the handle of an open block. -/
theorem exists_block (hc : OpenChain blocks h stack guards) :
    ∃ (n : Nat) (b : Block), h = n ∧ blocks[n]? = some b ∧ b.complete = false := by
  cases hc with
  | @root n hblock => exact ⟨n, _, rfl, hblock, rfl⟩
  | @loop n _ _ _ _ hblock _ _ => exact ⟨n, _, rfl, hblock, rfl⟩

end OpenChain

/-! ## Builders and drafts -/

/-- The recorder of a trace after all instructions of some code. -/
def Recorder.describing (r : Recorder) (code : Code) : Recorder :=
  { r with lines := code.map fun i => traceLine i.op i.position }

namespace Builder

/-- A builder holds a draft: the code is the same, and the stack of open blocks stands for the
open guards. The trace, if there is one, describes the code. -/
structure Represents (trace : Option Recorder) (b : Builder) (d : Draft) : Prop where
  code : b.arena.code = d.code
  innermost : b.arena.innermost = b.current
  chain : OpenChain b.arena.blocks b.current b.stack d.guards
  recorder : b.recorder = trace.map (·.describing d.code)

theorem start_represents (trace : Option Recorder) :
    ∃ b, start (trace.map (·.describing #[])) = .ok b ∧ b.Represents trace Draft.empty := by
  refine ⟨_, rfl, rfl, rfl, ?_, rfl⟩
  exact .root rfl

theorem emit_describing (trace : Option Recorder) (d : Draft) (c : Command) (p : Position) :
    emit (trace.map (·.describing d.code)) c p =
      (d.instruction trace.isSome c p,
        trace.map (·.describing (d.code.push (d.instruction trace.isSome c p)))) := by
  cases trace with
  | none => rfl
  | some r => simp [emit, Recorder.record, Recorder.describing, Draft.instruction]

theorem accept_primitive (b : Builder) (a : Primitive) (p : Position) :
    b.accept a.command p =
      (lift (b.arena.append b.current (emit b.recorder a.command p).1)).bind fun arena =>
        .ok { b with arena, recorder := (emit b.recorder a.command p).2 } := by
  cases a <;> rfl

theorem accept_loopStart (b : Builder) (p : Position) :
    b.accept .loopStart p =
      (lift (b.arena.openBlock b.current true (emit b.recorder .loopStart p).1)).bind
        fun (inner, arena) =>
          .ok { arena, current := inner, stack := b.current :: b.stack,
                recorder := (emit b.recorder .loopStart p).2 } := rfl

theorem closeLoop_cons {b : Builder} {h : Handle} {stack : List Handle}
    (hstack : b.stack = h :: stack) (p : Position) :
    b.closeLoop p =
      (lift (b.arena.complete b.current (emit b.recorder .loopEnd p).1)).bind fun arena =>
        .ok { arena, current := h, stack, recorder := (emit b.recorder .loopEnd p).2 } := by
  obtain ⟨arena, current, _, recorder⟩ := b
  cases hstack
  rfl

theorem Represents.put {trace : Option Recorder} {b : Builder} {d : Draft}
    (h : b.Represents trace d) (a : Primitive) (p : Position) :
    ∃ b', b.accept a.command p = .ok b' ∧
      b'.Represents trace (d.put trace.isSome a.command p) := by
  obtain ⟨n, block, hcurrent, hblock, hopen⟩ := h.chain.exists_block
  have hinner : b.arena.innermost = n := h.innermost.trans hcurrent
  rw [accept_primitive, h.recorder, emit_describing, hcurrent,
    Arena.append_eq_ok hblock hopen hinner]
  refine ⟨_, rfl, ?_, hinner, ?_, rfl⟩
  · rw [h.code]
    rfl
  · simpa only [hcurrent, Draft.put_guards] using h.chain

theorem Represents.enter {trace : Option Recorder} {b : Builder} {d : Draft}
    (h : b.Represents trace d) (p : Position) :
    ∃ b', b.accept .loopStart p = .ok b' ∧ b'.Represents trace (d.enter trace.isSome p) := by
  obtain ⟨n, block, hcurrent, hblock, -⟩ := h.chain.exists_block
  rw [accept_loopStart, h.recorder, emit_describing, Arena.openBlock_loop_eq_ok h.innermost]
  refine ⟨_, rfl, ?_, rfl, ?_, rfl⟩
  · rw [h.code]
    rfl
  · refine .loop ?_ ?_ (h.chain.push _)
    · simp [h.code, Draft.instruction]
    · have hsize := (Array.getElem?_eq_some_iff.mp hblock).1
      rw [hcurrent]
      omega

theorem Represents.leave {trace : Option Recorder} {b : Builder} {d : Draft}
    (h : b.Represents trace d) {g : Guard} {outer : List Guard} (hguards : d.guards = g :: outer)
    (p : Position) :
    ∃ b', b.closeLoop p = .ok b' ∧ b'.Represents trace (d.leave trace.isSome p g outer) := by
  -- the chain has a loop on top because the draft has an open guard
  have hchain := h.chain
  rw [hguards] at hchain
  generalize hcurrent : b.current = current, hstack : b.stack = stack at hchain
  cases hchain with
  | @loop n parent stack _ _ hblock hlt houter =>
      rw [closeLoop_cons hstack, h.recorder, emit_describing, hcurrent,
        Arena.complete_loop_eq_ok hblock rfl rfl (h.innermost.trans hcurrent)]
      refine ⟨_, rfl, ?_, rfl, houter.set hlt _, ?_⟩
      · simp [h.code, Draft.leave, Draft.instruction]
      · cases trace with
        | none => rfl
        | some r =>
            simp only [Option.map_some, Recorder.describing, Draft.leave]
            rw [Draft.map_modify_target fun _ => rfl]
            simp [Draft.instruction]

/-- One command has the same effect on a builder as on its draft. -/
theorem Represents.accept {trace : Option Recorder} {b : Builder} {d d' : Draft} {c : Command}
    {p : Position} (h : b.Represents trace d) (haccept : d.accept trace.isSome c p = .ok d') :
    ∃ b', b.accept c p = .ok b' ∧ b'.Represents trace d' := by
  rcases Draft.accept_cases haccept with ⟨a, rfl, rfl⟩ | ⟨rfl, rfl⟩ | ⟨g, outer, rfl, hguards, rfl⟩
  · exact h.put a p
  · exact h.enter p
  · have hstack : b.stack ≠ [] := by
      intro hnil
      simpa [hnil, hguards] using h.chain.stack_length
    rw [Builder.accept, if_neg (by simpa using hstack)]
    exact h.leave hguards p

/-- A command that is refused in a draft is refused in a builder, for the same reason. -/
theorem Represents.accept_eq_error {trace : Option Recorder} {b : Builder} {d : Draft} {c : Command}
    {p : Position} {e : BracketError} (h : b.Represents trace d)
    (haccept : d.accept trace.isSome c p = .error e) :
    b.accept c p = .error (.brackets e) := by
  obtain ⟨rfl, hguards, rfl⟩ := Draft.accept_eq_error haccept
  have hstack : b.stack = [] := by
    simpa [hguards] using h.chain.stack_length
  rw [Builder.accept, if_pos (by simpa using hstack)]

/-! ## Whole sequences -/

/-- Takes the next command with its position. -/
def acceptAt (b : Builder) (x : Command × Position) : Except CompileError Builder :=
  b.accept x.1 x.2

theorem Represents.foldlM {trace : Option Recorder} {b : Builder} {d d' : Draft}
    {cs : List (Command × Position)} (h : b.Represents trace d)
    (hrun : d.run trace.isSome cs = .ok d') :
    ∃ b', cs.foldlM acceptAt b = .ok b' ∧ b'.Represents trace d' := by
  induction cs generalizing b d with
  | nil =>
      cases hrun
      exact ⟨b, rfl, h⟩
  | cons x cs ih =>
      obtain ⟨d₁, haccept, htail⟩ := Draft.run_cons_eq_ok hrun
      obtain ⟨b₁, hb₁, h₁⟩ := h.accept haccept
      obtain ⟨b', hb', h'⟩ := ih h₁ htail
      refine ⟨b', ?_, h'⟩
      rw [List.foldlM_cons, acceptAt, hb₁]
      exact hb'

theorem Represents.foldlM_eq_error {trace : Option Recorder} {b : Builder} {d : Draft}
    {cs : List (Command × Position)} {e : BracketError} (h : b.Represents trace d)
    (hrun : d.run trace.isSome cs = .error e) :
    cs.foldlM acceptAt b = .error (.brackets e) := by
  induction cs generalizing b d with
  | nil => cases hrun
  | cons x cs ih =>
      rw [List.foldlM_cons, acceptAt]
      cases haccept : d.accept trace.isSome x.1 x.2 with
      | ok d₁ =>
          obtain ⟨b₁, hb₁, h₁⟩ := h.accept haccept
          rw [Draft.run_cons_of_ok haccept] at hrun
          rw [hb₁]
          exact ih h₁ hrun
      | error e' =>
          rw [Draft.run, haccept] at hrun
          cases hrun
          rw [h.accept_eq_error haccept]
          rfl

/-- Closing the blocks of a stack closes the open guards, innermost first. -/
theorem Represents.closeLoops {trace : Option Recorder} {b : Builder} {d : Draft}
    {stack : List Handle} (h : b.Represents trace d) (hlength : stack.length ≤ d.guards.length) :
    ∃ b' d', stack.foldlM (fun b _ => b.closeLoop Position.implicit) b = .ok b' ∧
      d.run trace.isSome (List.replicate stack.length (.loopEnd, Position.implicit)) = .ok d' ∧
      d'.guards = d.guards.drop stack.length ∧ b'.Represents trace d' := by
  -- the handles of the stack are never looked at: it only counts how often to close
  induction stack generalizing b d with
  | nil => exact ⟨b, d, rfl, rfl, rfl, h⟩
  | cons top stack ih =>
      cases hguards : d.guards with
      | nil => simp [hguards] at hlength
      | cons g outer =>
          obtain ⟨b₁, hb₁, h₁⟩ := h.leave hguards Position.implicit
          obtain ⟨b', d', hb', hd', hleft, h'⟩ := ih h₁ (by simpa [hguards] using hlength)
          refine ⟨b', d', ?_, ?_, hleft, h'⟩
          · rw [List.foldlM_cons, hb₁]
            exact hb'
          · rw [List.length_cons, List.replicate_succ,
              Draft.run_cons_of_ok (Draft.accept_loopEnd_cons _ _ hguards), hd']

/-- The outermost block adds no instruction. -/
theorem Represents.finish {trace : Option Recorder} {b : Builder} {d : Draft}
    (h : b.Represents trace d) (hguards : d.guards = []) :
    ∃ b', b.finish = .ok b' ∧ b'.arena.code = d.code ∧
      b'.recorder = trace.map (·.describing d.code) := by
  have hchain := h.chain
  rw [hguards] at hchain
  generalize hcurrent : b.current = current, b.stack = stack at hchain
  cases hchain with
  | @root n hblock =>
      rw [Builder.finish, hcurrent,
        Arena.complete_plain_eq_ok hblock rfl rfl (h.innermost.trans hcurrent)]
      exact ⟨_, rfl, h.code, h.recorder⟩

/-- The innermost open block knows the position of the innermost open guard. -/
theorem Represents.get_opened {trace : Option Recorder} {b : Builder} {d : Draft}
    (h : b.Represents trace d) {g : Guard} {outer : List Guard}
    (hguards : d.guards = g :: outer) :
    ∃ block, b.arena.get b.current = .ok block ∧ block.opened = g.opened := by
  have hchain := h.chain
  rw [hguards] at hchain
  generalize hcurrent : b.current = current, b.stack = stack at hchain
  cases hchain with
  | @loop n parent _ _ _ hblock _ _ =>
      refine ⟨{ parent, loop := true, opened := g.opened, start := g.start }, ?_, rfl⟩
      simp [Arena.get, hblock]

end Builder

/-- A command sequence, followed by the closing brackets that it lacks, without positions. -/
def closed (cs : List (Command × Position)) : List (Command × Position) :=
  cs ++ List.replicate (depth (cs.map Prod.fst)).toNat (.loopEnd, Position.implicit)

namespace Builder

variable {trace : Option Recorder} {source : Feed}

/-- A compilation up to the end of its commands. -/
theorem run_eq (trace : Option Recorder) (source : Feed) :
    ∃ b, b.Represents trace Draft.empty ∧ ∀ strict,
      run strict (trace.map (·.describing #[])) source =
        ((commands source.bytes).foldlM acceptAt b).bind fun b =>
          match source.failure with
          | some m => .error (.unreadable m)
          | none => (b.closeAll strict).bind finish := by
  obtain ⟨b, hb, h⟩ := start_represents trace
  refine ⟨b, h, fun strict => ?_⟩
  rw [run, hb]
  simp only [foldCommands_eq_foldlM]
  rfl

theorem run_eq_unmatched (strict : Bool) {e : BracketError}
    (hrun : Draft.empty.run trace.isSome (commands source.bytes) = .error e) :
    run strict (trace.map (·.describing #[])) source = .error (.brackets e) := by
  obtain ⟨b, h, heq⟩ := run_eq trace source
  rw [heq, h.foldlM_eq_error hrun]
  rfl

theorem run_eq_unreadable (strict : Bool) {d : Draft} {m : Bytes}
    (hrun : Draft.empty.run trace.isSome (commands source.bytes) = .ok d)
    (hfailure : source.failure = some m) :
    run strict (trace.map (·.describing #[])) source = .error (.unreadable m) := by
  obtain ⟨b, h, heq⟩ := run_eq trace source
  obtain ⟨b', hb', -⟩ := h.foldlM hrun
  rw [heq, hb', hfailure]
  rfl

theorem run_eq_unclosed {d : Draft} {g : Guard} {outer : List Guard}
    (hrun : Draft.empty.run trace.isSome (commands source.bytes) = .ok d)
    (hfailure : source.failure = none) (hguards : d.guards = g :: outer) :
    run true (trace.map (·.describing #[])) source =
      .error (.brackets (.unclosed g.opened)) := by
  obtain ⟨b, h, heq⟩ := run_eq trace source
  obtain ⟨b', hb', h'⟩ := h.foldlM hrun
  have hstack : b'.stack ≠ [] := by
    intro hnil
    simpa [hnil, hguards] using h'.chain.stack_length
  obtain ⟨block, hget, hopened⟩ := h'.get_opened hguards
  have hclose : b'.closeAll true = .error (.brackets (.unclosed g.opened)) := by
    rw [closeAll, if_pos (by simpa using hstack), hget, ← hopened]
    rfl
  rw [heq, hb', hfailure]
  simp only [Except.bind, hclose]

/-- A compilation that meets no error builds the draft of the closed commands. -/
theorem run_eq_ok {strict : Bool} {d : Draft}
    (hrun : Draft.empty.run trace.isSome (commands source.bytes) = .ok d)
    (hfailure : source.failure = none) (hstrict : strict = true → d.guards = []) :
    ∃ b d', run strict (trace.map (·.describing #[])) source = .ok b ∧
      Draft.empty.run trace.isSome (closed (commands source.bytes)) = .ok d' ∧
      d'.guards = [] ∧ b.arena.code = d'.code ∧
      b.recorder = trace.map (·.describing d'.code) := by
  obtain ⟨b, h, heq⟩ := run_eq trace source
  obtain ⟨b₁, hb₁, h₁⟩ := h.foldlM hrun
  have hlength := h₁.chain.stack_length
  obtain ⟨b₂, d₂, hb₂, hd₂, hleft, h₂⟩ := h₁.closeLoops (Nat.le_of_eq hlength)
  have hnil : d₂.guards = [] := by
    rw [hleft]
    exact List.drop_eq_nil_of_le (Nat.le_of_eq hlength.symm)
  obtain ⟨b₃, hb₃, hcode, hrecorder⟩ := h₂.finish hnil
  have hdepth : (depth ((commands source.bytes).map Prod.fst)).toNat = b₁.stack.length := by
    have := Draft.run_guards_length hrun
    simp only [Draft.empty, List.length_nil] at this
    omega
  have hclose : b₁.closeAll strict = .ok b₂ := by
    rw [closeAll, if_neg]
    · exact hb₂
    · intro hunclosed
      simp only [Bool.and_eq_true, Bool.not_eq_true', List.isEmpty_eq_false_iff] at hunclosed
      apply hunclosed.2
      rw [← List.length_eq_zero_iff, hlength, hstrict hunclosed.1, List.length_nil]
  refine ⟨b₃, d₂, ?_, ?_, hnil, hcode, hrecorder⟩
  · rw [heq, hb₁, hfailure]
    simp only [Except.bind, hclose, hb₃]
  · rw [closed, Draft.run_append_of_ok hrun, hdepth, hd₂]

end Builder

/-! ## Programs -/

namespace Program

/-- The recorder that a compilation starts with. -/
def recorder (settings : CompileSettings) : Option Recorder :=
  settings.trace.map fun t => { dir := t.dir, id := t.id : Recorder }

theorem recorder_describing (settings : CompileSettings) :
    (recorder settings).map (·.describing #[]) = recorder settings := by
  cases h : settings.trace with
  | none => simp [recorder, h]
  | some t => simp [recorder, h, Recorder.describing]

theorem recorder_isSome (settings : CompileSettings) :
    (recorder settings).isSome = settings.trace.isSome := by
  simp [recorder]

theorem compile_eq_error {settings : CompileSettings} {source : Feed} {disk : Disk}
    {e : CompileError} (h : Builder.run settings.strict (recorder settings) source = .error e) :
    compile settings source disk = (.error e, disk) := by
  rw [recorder] at h
  simp only [compile, h]

/-- Only a compilation without errors yields a program, and its code is the builder's. -/
theorem exists_builder_of_compile {settings : CompileSettings} {source : Feed}
    {disk disk' : Disk} {p : Program} (h : compile settings source disk = (.ok p, disk')) :
    ∃ b, Builder.run settings.strict (recorder settings) source = .ok b ∧
      p.code = b.arena.code := by
  cases hrun : Builder.run settings.strict (recorder settings) source with
  | error e =>
      rw [compile_eq_error hrun] at h
      cases h
  | ok b =>
      refine ⟨b, rfl, ?_⟩
      rw [recorder] at hrun
      simp only [compile, hrun] at h
      split at h
      · cases h
        rfl
      · split at h
        · cases h
        · split at h <;> cases h
          rfl

/-- The code of a program is the draft of the closed commands of its source. -/
theorem exists_draft_of_compile {settings : CompileSettings} {source : Feed}
    {disk disk' : Disk} {p : Program} (h : compile settings source disk = (.ok p, disk')) :
    ∃ d, Draft.empty.run settings.trace.isSome (closed (commands source.bytes)) = .ok d ∧
      d.guards = [] ∧ p.code = d.code := by
  obtain ⟨b, hb, hcode⟩ := exists_builder_of_compile h
  rw [← recorder_describing] at hb
  rw [← recorder_isSome]
  cases hrun : Draft.empty.run (recorder settings).isSome (commands source.bytes) with
  | error e =>
      rw [Builder.run_eq_unmatched _ hrun] at hb
      cases hb
  | ok d =>
      cases hfailure : source.failure with
      | some m =>
          rw [Builder.run_eq_unreadable _ hrun hfailure] at hb
          cases hb
      | none =>
          have hstrict : settings.strict = true → d.guards = [] := by
            intro hstrict
            cases hguards : d.guards with
            | nil => rfl
            | cons g outer =>
                rw [hstrict, Builder.run_eq_unclosed hrun hfailure hguards] at hb
                cases hb
          obtain ⟨b', d', hb', hd', hnil, hcode', -⟩ :=
            Builder.run_eq_ok hrun hfailure hstrict
          rw [hb'] at hb
          cases hb
          exact ⟨d', hd', hnil, hcode.trans hcode'⟩

section Untraced

variable {strict : Bool} {source : Feed} {disk : Disk}

theorem compile_eq_unmatched {e : BracketError}
    (hrun : Draft.empty.run false (commands source.bytes) = .error e) :
    compile { strict } source disk = (.error (.brackets e), disk) :=
  compile_eq_error (@Builder.run_eq_unmatched none source strict e hrun)

theorem compile_eq_unclosed {d : Draft} {g : Guard} {outer : List Guard}
    (hrun : Draft.empty.run false (commands source.bytes) = .ok d)
    (hfailure : source.failure = none) (hguards : d.guards = g :: outer) :
    compile { strict := true } source disk =
      (.error (.brackets (.unclosed g.opened)), disk) :=
  compile_eq_error (@Builder.run_eq_unclosed none source d g outer hrun hfailure hguards)

theorem compile_eq_ok {d : Draft}
    (hrun : Draft.empty.run false (commands source.bytes) = .ok d)
    (hfailure : source.failure = none) (hstrict : strict = true → d.guards = []) :
    ∃ d', Draft.empty.run false (closed (commands source.bytes)) = .ok d' ∧ d'.guards = [] ∧
      compile { strict } source disk = (.ok { code := d'.code }, disk) := by
  obtain ⟨b, d', hb, hd', hnil, hcode, hrecorder⟩ :=
    @Builder.run_eq_ok none source strict d hrun hfailure hstrict
  refine ⟨d', hd', hnil, ?_⟩
  simp only [Option.map_none] at hb hrecorder
  simp only [compile, Option.map_none, hb, hrecorder, hcode]

end Untraced

end Program

end Brainfuck
