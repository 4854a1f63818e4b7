import Brainfuck.Proofs.Closing
import Brainfuck.Proofs.Meaning
import Brainfuck.Proofs.Runs
import Brainfuck.Stream.Memory

/-!
# Correctness of compiled code

A run of laid out code and an execution of its tree do the same.

## Main Definitions

* `Data.machine` — the machine on some data before an instruction
* `Data.Carries` — what an execution says about a run
* `Data.Remains` — what a run says about an execution

## Main Results

* `Data.step_primitive` — an instruction that is no jump does what its primitive does
* `Executes.carries` — a run follows an execution
* `LaidOut.executes_of_run` — a run that ends has an execution behind it
* `LaidOut.executes_iff_ends` — the two together, for code that is all laid out
* `compile_preserves_meaning` — the same for compiled sources on memory streams

## Design Notes

An execution is followed by induction on its derivation. The way back is an induction on the number
of instructions that the run may still execute: the body of a loop and its next round are no parts
of one tree, but each of them is run with fewer instructions than the loop.
-/

namespace Brainfuck

open Machine (Ends ends_of_none ends_of_error ends_of_step exists_run_of_step)

variable {ω : Type} {channel : Channel ω} {code : Code} {s t : Data ω} {tree : Tree} {i j k : Nat}
  {x : Instruction} {r : Except RunError Unit} {res : Except RunError Unit × Machine ω}

/-! ## Steps -/

/-- The low eight bits of a cell are its remainder modulo 256. -/
theorem toUInt8_toUInt32 (c : Int32) : c.toUInt32.toUInt8 = UInt8.ofInt c.toInt := by
  apply UInt8.toNat_inj.mp
  have hbmod : c.toInt = (c.toUInt32.toNat : Int).bmod (2 ^ 32) :=
    BitVec.toInt_eq_toNat_bmod c.toBitVec
  have hlt : c.toUInt32.toNat < 2 ^ 32 := c.toUInt32.toNat_lt
  rw [UInt32.toNat_toUInt8, UInt8.ofInt, UInt8.toNat_ofNat', hbmod, Int.bmod_def]
  split <;> omega

/-- A byte and the cell that it is read into are the same number. -/
theorem toInt32_toUInt32 (b : UInt8) : b.toUInt32.toInt32 = Int32.ofNat b.toNat := by
  apply Int32.toBitVec_inj.mp
  apply BitVec.eq_of_toNat_eq
  have hlt : b.toNat < 2 ^ 8 := b.toNat_lt
  show b.toUInt32.toNat = b.toNat % 2 ^ 32
  rw [UInt8.toNat_toUInt32]
  omega

/-- What a machine acts on. -/
def Machine.data (m : Machine ω) : Data ω :=
  { tape := m.tape, pointer := m.pointer, world := m.world }

namespace Data

/-- The machine on some data before the instruction at an index. -/
def machine (s : Data ω) (counter : Nat) : Machine ω :=
  { tape := s.tape, pointer := s.pointer, counter, world := s.world }

/-- An instruction that is no jump does what its primitive does. If it fails, the error names its
index. -/
theorem step_primitive (channel : Channel ω) {a : Primitive} (hop : x.op = some a.command)
    (s : Data ω) (k : Nat) :
    (s.machine k).step channel x =
      match a.effect channel s with
      | (.ok (), t) => (.ok (), t.machine (k + 1))
      | (.error f, t) => (.error (f.at k), t.machine k) := by
  unfold Machine.step
  rw [hop]
  cases a with
  | moveForward =>
      by_cases hlt : s.pointer + 1 < s.tape.size
      · simp [Primitive.command, Primitive.effect, machine, Machine.moveTo, hlt]
      · simp [Primitive.command, Primitive.effect, machine, Failure.at, hlt]
  | moveBackward =>
      rcases hpointer : s.pointer with _ | n
      · simp [Primitive.command, Primitive.effect, machine, Failure.at, hpointer]
      · simp [Primitive.command, Primitive.effect, machine, Machine.moveTo, hpointer]
  | increment => rfl
  | decrement => rfl
  | output =>
      have hcell : (s.machine k).cell.toUInt32.toUInt8 = UInt8.ofInt s.cell.toInt :=
        toUInt8_toUInt32 s.cell
      simp only [Primitive.command, Primitive.effect, Machine.output, hcell]
      rcases hput : channel.put (UInt8.ofInt s.cell.toInt) s.world with ⟨_ | _, world⟩
      · simp [machine, hput, Failure.at]
      · simp [machine, hput]
  | input =>
      rcases hget : channel.get s.world with ⟨_ | b, world⟩
      · simp [Primitive.command, Primitive.effect, Machine.input, machine, hget, Failure.at]
      · simp [Primitive.command, Primitive.effect, Machine.input, machine, hget, Machine.update,
          update, toInt32_toUInt32]

/-- A guard is passed if the current cell is not zero, otherwise it goes to the index behind its
exit. -/
theorem step_guard (channel : Channel ω) (hop : x.op = some .loopStart)
    (htarget : x.target = j + 1) (s : Data ω) (k : Nat) :
    (s.machine k).step channel x =
      (.ok (), s.machine (if s.cell = 0 then j + 1 else k + 1)) := by
  have hcell : (s.machine k).cell = s.cell := rfl
  unfold Machine.step
  rw [hop]
  simp only [hcell]
  by_cases hzero : s.cell = 0
  · rw [if_pos hzero, if_pos hzero, htarget]
    rfl
  · rw [if_neg hzero, if_neg hzero]
    rfl

/-- An exit goes back to its guard. -/
theorem step_exit (channel : Channel ω) (hop : x.op = some .loopEnd) (htarget : x.target = i)
    (s : Data ω) (k : Nat) :
    (s.machine k).step channel x = (.ok (), s.machine i) := by
  unfold Machine.step
  rw [hop, htarget]
  rfl

/-- What an execution that leads to `t` says about a run: the run goes on at `j`, or it ends with
the same error. -/
def Carries (channel : Channel ω) (code : Code) (m : Machine ω) (r : Except RunError Unit)
    (t : Data ω) (j : Nat) : Prop :=
  match r with
  | .ok () => ∀ res, Ends channel code (t.machine j) res → Ends channel code m res
  | .error e => ∃ i, Ends channel code m (.error e, t.machine i)

/-- A run follows an execution from a step on. -/
theorem Carries.of_step {m m' : Machine ω} (hx : code[m.counter]? = some x)
    (hstep : m.step channel x = (.ok (), m')) (h : Carries channel code m' r t j) :
    Carries channel code m r t j := by
  cases r with
  | ok _ => exact fun res hres => ends_of_step hx hstep (h res hres)
  | error e =>
      obtain ⟨i, hends⟩ := h
      exact ⟨i, ends_of_step hx hstep hends⟩

/-- A run follows two executions, one after the other. -/
theorem Carries.trans {m : Machine ω} {s₁ : Data ω} (h : Carries channel code m (.ok ()) s₁ i)
    (h' : Carries channel code (s₁.machine i) r t j) : Carries channel code m r t j := by
  cases r with
  | ok _ => exact fun res hres => h res (h' res hres)
  | error e =>
      obtain ⟨n, hends⟩ := h'
      exact ⟨n, h _ hends⟩

/-- What a run that ends with `res` says about an execution that leads to `t`: if the execution
succeeds, the run is at `j`, and `fuel` instructions are enough for the rest of it. -/
def Remains (channel : Channel ω) (code : Code) (fuel : Nat)
    (res : Except RunError Unit × Machine ω) (r : Except RunError Unit) (t : Data ω) (j : Nat) :
    Prop :=
  r = .ok () → ∃ fuel' ≤ fuel, (t.machine j).run channel code fuel' = some res

theorem Remains.mono {fuel fuel' : Nat} (h : Remains channel code fuel res r t j)
    (hle : fuel ≤ fuel') : Remains channel code fuel' res r t j := by
  intro hr
  obtain ⟨n, hn, hrun⟩ := h hr
  exact ⟨n, Nat.le_trans hn hle, hrun⟩

end Data

/-! ## Runs -/

theorem LaidOut.end_eq (h : LaidOut code i tree j) : j = i + tree.commands.length := by
  induction h with
  | done i => rfl
  | act _ _ _ _ ih =>
      rw [ih, Tree.commands, List.length_cons]
      omega
  | loop _ _ _ _ _ ihbody ihrest =>
      rw [ihrest, ihbody, Tree.commands, List.length_append, List.length_cons, List.length_cons]
      omega

/-- **A run follows an execution.** -/
theorem Executes.carries (h : Executes channel k tree s r t) (hlay : LaidOut code k tree j) :
    Data.Carries channel code (s.machine k) r t j := by
  induction h generalizing j with
  | done =>
      cases hlay
      exact fun res hres => hres
  | @act k a rest s s₁ t r heffect _ ih =>
      cases hlay with
      | act hx hop _ hrest =>
          have hstep := Data.step_primitive channel hop s k
          rw [heffect] at hstep
          exact .of_step hx hstep (ih hrest)
  | @fail k a rest s t f heffect =>
      cases hlay with
      | act hx hop _ _ =>
          have hstep := Data.step_primitive channel hop s k
          rw [heffect] at hstep
          exact ⟨k, ends_of_error hx hstep⟩
  | @skip k body rest s t r hzero _ ih =>
      cases hlay with
      | @loop _ e _ _ _ x hx hop hjoined hbody hrest =>
          have hstep := Data.step_guard channel hop (hjoined.target_eq hx) s k
          rw [if_pos hzero] at hstep
          have he : e + 1 = k + body.commands.length + 2 := by
            rw [hbody.end_eq]
            omega
          rw [he] at hstep hrest
          exact .of_step hx hstep (ih hrest)
  | @again k body rest s s₁ t r hcell _ _ ihbody ihagain =>
      have hloop := hlay
      cases hlay with
      | @loop _ e _ _ _ x hx hop hjoined hbody hrest =>
          have hstep := Data.step_guard channel hop (hjoined.target_eq hx) s k
          rw [if_neg hcell] at hstep
          obtain ⟨-, exit, -, -, hexit, hopexit, hback⟩ := hjoined
          -- the body ends at the exit, and the exit leads to the loop as it was laid out
          have hround := Data.Carries.of_step hexit
            (Data.step_exit channel hopexit hback s₁ e) (ihagain hloop)
          exact .of_step hx hstep ((ihbody hbody).trans hround)
  | @stop k body rest s t e hcell _ ihbody =>
      cases hlay with
      | @loop _ e _ _ _ x hx hop hjoined hbody hrest =>
          have hstep := Data.step_guard channel hop (hjoined.target_eq hx) s k
          rw [if_neg hcell] at hstep
          obtain ⟨n, hends⟩ := ihbody hbody
          exact ⟨n, ends_of_step hx hstep hends⟩

/-- **A run that ends has an execution behind it.** -/
theorem LaidOut.executes_of_run {fuel : Nat} (hlay : LaidOut code k tree j)
    (hrun : (s.machine k).run channel code fuel = some res) :
    ∃ r t, Executes channel k tree s r t ∧ Data.Remains channel code fuel res r t j := by
  induction fuel using Nat.strongRecOn generalizing k j tree s with
  | ind fuel ih =>
      have hloop := hlay
      cases hlay with
      | done => exact ⟨.ok (), s, .done, fun _ => ⟨fuel, Nat.le_refl fuel, hrun⟩⟩
      | @act _ _ a rest x hx hop _ hrest =>
          have hstep := Data.step_primitive channel hop s k
          rcases heffect : a.effect channel s with ⟨_ | _, s₁⟩
          · exact ⟨_, s₁, .fail heffect, by rintro ⟨⟩⟩
          · rw [heffect] at hstep
            obtain ⟨n, hn, hrun₁⟩ := exists_run_of_step hx hstep hrun
            obtain ⟨r, t, hexec, hgo⟩ := ih n hn hrest hrun₁
            exact ⟨r, t, .act heffect hexec, hgo.mono (by omega)⟩
      | @loop _ e _ body rest x hx hop hjoined hbody hrest =>
          obtain ⟨n, hn, hrun₁⟩ :=
            exists_run_of_step hx (Data.step_guard channel hop (hjoined.target_eq hx) s k) hrun
          obtain ⟨-, exit, -, -, hexit, hopexit, hback⟩ := hjoined
          by_cases hcell : s.cell = 0
          · rw [if_pos hcell] at hrun₁
            obtain ⟨r, t, hexec, hgo⟩ := ih n hn hrest hrun₁
            rw [hbody.end_eq, show k + 1 + body.commands.length + 1 =
              k + body.commands.length + 2 by omega] at hexec
            exact ⟨r, t, .skip hcell hexec, hgo.mono (by omega)⟩
          · rw [if_neg hcell] at hrun₁
            obtain ⟨r, s₁, hexec, hgo⟩ := ih n hn hbody hrun₁
            cases r with
            | error e => exact ⟨_, s₁, .stop hcell hexec, by rintro ⟨⟩⟩
            | ok _ =>
                -- the body has come to the exit, which leads to the next round
                obtain ⟨n₁, hn₁, hrun₂⟩ := hgo rfl
                obtain ⟨n₂, hn₂, hrun₃⟩ :=
                  exists_run_of_step hexit (Data.step_exit channel hopexit hback s₁ e) hrun₂
                obtain ⟨r, t, hagain, hgo'⟩ := ih n₂ (by omega) hloop hrun₃
                exact ⟨r, t, .again hcell hexec hagain, hgo'.mono (by omega)⟩

/-- **Code that is laid out along a tree ends exactly as the tree is executed.** -/
theorem LaidOut.executes_iff_ends (hlay : LaidOut code 0 tree code.size) :
    Executes channel 0 tree s r t ↔ ∃ i, Ends channel code (s.machine 0) (r, t.machine i) := by
  have hforward : ∀ {r t}, Executes channel 0 tree s r t →
      ∃ i, Ends channel code (s.machine 0) (r, t.machine i) := by
    intro r t h
    have hcarries := h.carries hlay
    cases r with
    | ok _ => exact ⟨code.size, hcarries _ (ends_of_none (Array.getElem?_eq_none (Nat.le_refl _)))⟩
    | error e => exact hcarries
  refine ⟨hforward, ?_⟩
  -- the run has some execution behind it, and this is the one asked for as runs end in one way
  rintro ⟨i, hends⟩
  obtain ⟨fuel, hrun⟩ := id hends
  obtain ⟨r', t', hexec, -⟩ := hlay.executes_of_run hrun
  obtain ⟨i', hends'⟩ := hforward hexec
  obtain ⟨hr, hm⟩ := Prod.mk.inj (hends.unique hends')
  have ht : t = t' := congrArg Machine.data hm
  rwa [hr, ht]

/-! ## Compiled sources -/

/-- **A compiled source ends exactly as the source means**, on any streams. -/
theorem Program.means_iff_execute {settings : CompileSettings} {source : Bytes}
    {disk disk' : Disk} {p : Program}
    (h : compile settings { bytes := source } disk = (.ok p, disk')) {tape : Tape}
    (htape : tape ≠ #[]) {world : ω} :
    Means channel source tape world r t ↔
      ∃ fuel i, execute channel p.code fuel tape world = some (r, t.machine i) := by
  simp only [execute_eq_run channel p.code _ htape]
  exact (laidOut_of_compile h).executes_iff_ends.trans exists_comm

/-- The tree of an accepted source is spelled by its commands and a closing bracket for each
bracket left open. -/
theorem Program.commands_ofCommands {settings : CompileSettings} {source : Bytes}
    {disk disk' : Disk} {p : Program}
    (h : compile settings { bytes := source } disk = (.ok p, disk')) {n : Nat}
    (hn : depth ((commands source).map Prod.fst) = n) :
    (Tree.ofCommands ((commands source).map Prod.fst)).commands =
      (commands source).map Prod.fst ++ List.replicate n .loopEnd := by
  have hspelled := (laidOut_of_compile h).ops_eq
  have hlisted := congrArg (List.map Prod.fst) (listed_of_compile h hn)
  rw [Array.extract_size] at hspelled
  apply (List.map_inj_right fun _ _ => Option.some.inj).mp
  rw [← hspelled]
  simpa [Draft.listed, Function.comp_def] using hlisted

/-! ## Memory streams -/

/-- Memory streams before a run. -/
def MemoryStreams.holding (input : Bytes) (capacity : Nat) : MemoryStreams :=
  { reader := .ofBytes input, writer := { capacity } }

/-- On memory streams a command fails because the data pointer would leave the tape, because the
writer is full or because the input has ended. -/
theorem Primitive.failure_of_effect {a : Primitive} {u t : Data MemoryStreams} {f : Failure}
    (h : a.effect MemoryStreams.channel u = (.error f, t)) :
    (∃ pointer, f = .outOfRange pointer t.tape.size) ∨ f = .output .bufferFull ∨
      f = .input .endOfInput := by
  obtain ⟨htape, ⟨pointer, rfl⟩ | ⟨b, e, rfl, hput⟩ | ⟨e, rfl, hget⟩⟩ := effect_eq_error h
  · exact .inl ⟨pointer, by rw [htape]⟩
  · simp only [MemoryStreams.channel, MemoryWriter.put] at hput
    split at hput
    · cases hput
    · cases (Prod.mk.inj hput).1
      exact .inr (.inl rfl)
  · simp only [MemoryStreams.channel, MemoryReader.get] at hget
    split at hget
    · cases hget
    · cases (Prod.mk.inj hget).1
      exact .inr (.inr rfl)

/-- **Compiled code does what its source means.** The tree of an accepted source is spelled by its
commands and a closing bracket for each bracket left open. A run on memory streams ends if and only
if the execution of this tree does. Both then leave the same tape, have read and written the same
bytes and come to the same outcome, and an error names the index of the failing command. -/
theorem compile_preserves_meaning {settings : CompileSettings} {source : Bytes}
    {disk disk' : Disk} {p : Program}
    (h : Program.compile settings { bytes := source } disk = (.ok p, disk')) {tape : Tape}
    (htape : tape ≠ #[]) (input : Bytes) (capacity : Nat) :
    (∃ n : Nat, depth ((commands source).map Prod.fst) = n ∧
      (Tree.ofCommands ((commands source).map Prod.fst)).commands =
        (commands source).map Prod.fst ++ List.replicate n .loopEnd) ∧
    ((∃ fuel r m, execute MemoryStreams.channel p.code fuel tape (.holding input capacity) =
        some (r, m)) ↔
      ∃ r t, Means MemoryStreams.channel source tape (.holding input capacity) r t) ∧
    (∀ fuel r m r' t,
      execute MemoryStreams.channel p.code fuel tape (.holding input capacity) = some (r, m) →
      Means MemoryStreams.channel source tape (.holding input capacity) r' t →
        r = r' ∧ m.tape = t.tape ∧ m.world.reader.position = t.world.reader.position ∧
          m.world.writer.content = t.world.writer.content) ∧
    ∀ fuel e m,
      execute MemoryStreams.channel p.code fuel tape (.holding input capacity) =
        some (.error e, m) →
      ∃ (n : Nat) (c : Position) (a : Primitive) (f : Failure) (u : Data MemoryStreams),
        (commands source)[n]? = some (a.command, c) ∧
        a.effect MemoryStreams.channel u = (.error f, m.data) ∧ e = f.at n ∧
        ((∃ pointer, f = .outOfRange pointer m.tape.size) ∨ f = .output .bufferFull ∨
          f = .input .endOfInput) := by
  have hmeans : ∀ {fuel r m}, execute MemoryStreams.channel p.code fuel tape
      (.holding input capacity) = some (r, m) →
      Means MemoryStreams.channel source tape (.holding input capacity) r m.data :=
    fun hrun => (Program.means_iff_execute h htape).mpr ⟨_, _, hrun⟩
  obtain ⟨n, hn⟩ := Int.eq_ofNat_of_zero_le (Program.depth_nonneg_of_compile h)
  have hspelled := Program.commands_ofCommands h hn
  refine ⟨⟨n, hn, hspelled⟩, ⟨?_, ?_⟩, ?_, ?_⟩
  · rintro ⟨fuel, r, m, hrun⟩
    exact ⟨r, m.data, hmeans hrun⟩
  · rintro ⟨r, t, ht⟩
    obtain ⟨fuel, i, hrun⟩ := (Program.means_iff_execute h htape).mp ht
    exact ⟨fuel, r, t.machine i, hrun⟩
  · intro fuel r m r' t hrun ht
    obtain ⟨rfl, rfl⟩ := (hmeans hrun).unique ht
    exact ⟨rfl, rfl, rfl, rfl⟩
  · intro fuel e m hrun
    obtain ⟨k, a, f, u, hk, heffect, he⟩ := (hmeans hrun).exists_failing
    rw [Nat.zero_add] at he
    rw [hspelled] at hk
    -- the failing command is no closing bracket, so it stands in the source
    have hlt : k < ((commands source).map Prod.fst).length := by
      by_cases hlt : k < ((commands source).map Prod.fst).length
      · exact hlt
      · rw [List.getElem?_append_right (Nat.not_lt.mp hlt)] at hk
        exact absurd (List.eq_of_mem_replicate (List.mem_of_getElem? hk)) a.command_ne_loopEnd
    rw [List.getElem?_append_left hlt, List.getElem?_map, Option.map_eq_some_iff] at hk
    obtain ⟨⟨c, position⟩, hc, rfl⟩ := hk
    exact ⟨k, position, a, f, u, hc, heffect, he, Primitive.failure_of_effect heffect⟩

/-- A loop that is left open copies its input until this ends. -/
theorem compile_preserves_meaning_of_echo :
    ∃ p t, Program.compile {} { bytes := text "+[,." } {} = (.ok p, {}) ∧
      (#[0] : Tape) ≠ #[] ∧
      Means MemoryStreams.channel (text "+[,.") #[0] (.holding [5] 3)
        (.error (.input 2 .endOfInput)) t ∧
      t.tape = #[5] ∧ t.world.reader.position = 1 ∧ t.world.writer.content = #[5] := by
  have hrun : ∃ p m, Program.compile {} { bytes := text "+[,." } {} = (.ok p, {}) ∧
      execute MemoryStreams.channel p.code 10 #[0] (.holding [5] 3) =
        some (.error (.input 2 .endOfInput), m) ∧
      m.tape = #[5] ∧ m.world.reader.position = 1 ∧ m.world.writer.content = #[5] :=
    ⟨_, _, rfl, rfl, rfl, rfl, rfl⟩
  obtain ⟨p, m, hp, hm, htape, hposition, hcontent⟩ := hrun
  have hne : (#[0] : Tape) ≠ #[] := by simp
  obtain ⟨-, hends, hsame, -⟩ := compile_preserves_meaning hp hne [5] 3
  obtain ⟨r, t, ht⟩ := hends.mp ⟨_, _, _, hm⟩
  obtain ⟨rfl, htape', hposition', hcontent'⟩ := hsame _ _ _ _ _ hm ht
  exact ⟨p, t, hp, hne, ht, htape'.symm.trans htape, hposition'.symm.trans hposition,
    hcontent'.symm.trans hcontent⟩

end Brainfuck
