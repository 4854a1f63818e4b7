import Brainfuck.Proofs.Brackets
import Brainfuck.Proofs.Jumps

/-!
# Implicit closing

Compiled code lists the commands of its source, one instruction for each, and then the exits of the
loops that the source leaves open. Writing these closing brackets out changes nothing but where the
exits stand.

## Main Results

* `Program.listed_of_compile` — what compiled code lists
* `Program.exists_compile_closers` — the source with its closing brackets written out compiles
* `compile_closes_implicitly` — the two codes compared
-/

namespace Brainfuck

/-- The commands of a source stay as they are when closing brackets follow. -/
theorem commands_closers (s : Bytes) (n : Nat) :
    ∃ exits, commands (s ++ List.replicate n 0x5D) = commands s ++ exits ∧
      exits.map Prod.fst = List.replicate n .loopEnd := by
  refine ⟨_, commands_append s (startsAscii_closers n), commandsFrom_closers ?_ n⟩
  exact Cursor.scan_owed (Nat.zero_le _)

namespace Program

variable {settings : CompileSettings} {s : Bytes} {disk disk' : Disk} {p : Program}

/-- What compiled code lists: the commands of the source, then the exits that it lacks. -/
theorem listed_of_compile (h : compile settings { bytes := s } disk = (.ok p, disk')) {n : Nat}
    (hn : depth ((commands s).map Prod.fst) = n) :
    Draft.listed p.code = (commands s).map (fun (c, q) => (some c, q)) ++
      List.replicate n (some .loopEnd, Position.implicit) := by
  obtain ⟨d, hrun, -, hcode⟩ := exists_draft_of_compile h
  rw [hcode, Draft.run_listed hrun, closed, hn, Int.toNat_natCast, List.map_append,
    List.map_replicate]
  simp [Draft.listed, Draft.empty]

theorem lined_of_compile (h : compile settings { bytes := s } disk = (.ok p, disk')) :
    Draft.Lined settings.trace.isSome p.code := by
  obtain ⟨d, hrun, -, hcode⟩ := exists_draft_of_compile h
  rw [hcode]
  exact Draft.run_lined (Draft.lined_empty _) hrun

/-- An accepted source closes no more than it opens. -/
theorem depth_nonneg_of_compile (h : compile settings { bytes := s } disk = (.ok p, disk')) :
    0 ≤ depth ((commands s).map Prod.fst) := by
  obtain ⟨d, hrun, -, -⟩ := exists_draft_of_compile h
  obtain ⟨d₁, hfront, -⟩ := Draft.run_append_eq_ok hrun
  exact Draft.neverClosed_of_run hfront _ (List.prefix_refl _)

theorem depth_append_closers {n : Nat} (hn : depth ((commands s).map Prod.fst) = n) :
    depth ((commands (s ++ List.replicate n 0x5D)).map Prod.fst) = 0 := by
  obtain ⟨exits, hcommands, hexits⟩ := commands_closers s n
  rw [hcommands, List.map_append, hexits, depth_append, hn, depth_closers]
  omega

/-- With its closing brackets written out, an accepted source compiles even with strict
brackets. -/
theorem exists_compile_closers (h : compile settings { bytes := s } disk = (.ok p, disk'))
    {n : Nat} (hn : depth ((commands s).map Prod.fst) = n) (disk₂ : Disk) :
    ∃ q, compile { strict := true } { bytes := s ++ List.replicate n 0x5D } disk₂ =
      (.ok q, disk₂) := by
  obtain ⟨d, hrun, -, -⟩ := exists_draft_of_compile h
  have hover := not_overclosed_iff.mpr (Draft.neverClosed_of_run hrun)
  obtain ⟨exits, hcommands, hexits⟩ := commands_closers s n
  have hops : (closed (commands s)).map Prod.fst =
      (commands (s ++ List.replicate n 0x5D)).map Prod.fst := by
    rw [hcommands, List.map_append, hexits, map_closed, hn, Int.toNat_natCast]
  rw [hops] at hover
  rcases compile_cases (s ++ List.replicate n 0x5D) disk₂ with
    ⟨q, hq, -⟩ | ⟨-, hpos, -⟩ | ⟨-, -, q, hall⟩
  · exact absurd (Draft.overclosed_of_firstUnmatched hq) hover
  · rw [depth_append_closers hn] at hpos
    exact absurd hpos (Int.lt_irrefl 0)
  · exact ⟨q, hall true⟩

variable {settings₂ : CompileSettings} {disk₂ disk₂' : Disk} {q : Program}

/-- Closing brackets at the end do not change the tree of a source, so they change neither the
operations nor the targets of its code. -/
theorem movedBy_zero_of_closers (h : compile settings { bytes := s } disk = (.ok p, disk'))
    {n : Nat}
    (hq : compile settings₂ { bytes := s ++ List.replicate n 0x5D } disk₂ = (.ok q, disk₂')) :
    q.code.size = p.code.size ∧ ∀ (k : Nat) (x y : Instruction), p.code[k]? = some x →
      q.code[k]? = some y → y.op = x.op ∧ y.target = x.target := by
  have hlay := laidOut_of_compile h
  have hlay' := laidOut_of_compile hq
  obtain ⟨exits, hcommands, hexits⟩ := commands_closers s n
  simp only [hcommands, List.map_append, hexits, Tree.ofCommands_append_closers] at hlay'
  exact hlay.same hlay'

/-- Written-out closing brackets have positions, implicit exits have none. -/
theorem position_eq_iff_of_closers (h : compile settings { bytes := s } disk = (.ok p, disk'))
    {n : Nat} (hn : depth ((commands s).map Prod.fst) = n)
    (hq : compile settings₂ { bytes := s ++ List.replicate n 0x5D } disk₂ = (.ok q, disk₂'))
    {k : Nat} {x y : Instruction} (hx : p.code[k]? = some x) (hy : q.code[k]? = some y) :
    y.position = x.position ↔ k < (commands s).length := by
  have hlisted := congrArg (·[k]?) (listed_of_compile h hn)
  have hlisted' := congrArg (·[k]?) (listed_of_compile hq (depth_append_closers hn))
  obtain ⟨exits, hcommands, -⟩ := commands_closers s n
  simp only [Draft.listed_getElem?, hx, Option.map_some] at hlisted
  simp only [Draft.listed_getElem?, hy, Option.map_some, List.replicate_zero,
    List.append_nil] at hlisted'
  rcases Nat.lt_or_ge k (commands s).length with hlt | hge
  · refine iff_of_true ?_ hlt
    rw [List.getElem?_append_left (by simpa using hlt)] at hlisted
    rw [hcommands, List.map_append, List.getElem?_append_left (by simpa using hlt),
      ← hlisted] at hlisted'
    exact congrArg Prod.snd (Option.some.inj hlisted')
  · refine iff_of_false (fun heq => ?_) (Nat.not_lt.mpr hge)
    have hx' : x.position = Position.implicit := by
      rw [List.getElem?_append_right (by simpa using hge)] at hlisted
      exact congrArg Prod.snd (List.eq_of_mem_replicate (List.mem_of_getElem? hlisted.symm))
    obtain ⟨z, hz, hzy⟩ := List.mem_map.mp (List.mem_of_getElem? hlisted'.symm)
    have hknown := isKnown_of_mem_commands hz
    rw [show z.2 = y.position from congrArg Prod.snd hzy, heq, hx'] at hknown
    exact absurd hknown (by decide)

end Program

/-- **Nothing is lost, added or reordered, and implicit closing is explicit closing.** The code of
an accepted source lists its commands with their positions and then one exit without a position for
each bracket left open. With these brackets written out the source compiles with strict brackets,
and its code has the same operations and targets; only the positions of the last exits differ. -/
theorem compile_closes_implicitly {settings : CompileSettings} {s : Bytes} {disk disk' : Disk}
    {p : Program} (h : Program.compile settings { bytes := s } disk = (.ok p, disk'))
    (disk₂ : Disk) :
    ∃ n : Nat, depth ((commands s).map Prod.fst) = n ∧
      p.code.toList.map (fun x => (x.op, x.position)) =
        (commands s).map (fun (c, q) => (some c, q)) ++
          List.replicate n (some .loopEnd, Position.implicit) ∧
      ∃ q, Program.compile { strict := true } { bytes := s ++ List.replicate n 0x5D } disk₂ =
          (.ok q, disk₂) ∧
        q.code.size = p.code.size ∧
        ∀ (k : Nat) (x y : Instruction), p.code[k]? = some x → q.code[k]? = some y →
          y.op = x.op ∧ y.target = x.target ∧
          (y.position = x.position ↔ k < (commands s).length) ∧
          (settings.trace = none → y.line = x.line) := by
  obtain ⟨n, hn⟩ := Int.eq_ofNat_of_zero_le (Program.depth_nonneg_of_compile h)
  obtain ⟨q, hq⟩ := Program.exists_compile_closers h hn disk₂
  obtain ⟨hsize, hjumps⟩ := Program.movedBy_zero_of_closers h hq
  refine ⟨n, hn, ?_, q, hq, hsize, fun k x y hx hy => ?_⟩
  · rw [← Program.listed_of_compile h hn, Draft.listed, Array.toList_map]
  · obtain ⟨hop, htarget⟩ := hjumps k x y hx hy
    refine ⟨hop, htarget, Program.position_eq_iff_of_closers h hn hq hx hy, fun htrace => ?_⟩
    rw [(Program.lined_of_compile h).line_eq hx, (Program.lined_of_compile hq).line_eq hy, htrace]

/-- Two brackets left open, and the same two written out. -/
theorem compile_closes_implicitly_twice :
    ∃ p q, Program.compile {} { bytes := text "[+[," } {} = (.ok p, {}) ∧
      Program.compile { strict := true } { bytes := text "[+[,]]" } {} = (.ok q, {}) ∧
      q.code.size = p.code.size ∧
      ∀ (k : Nat) (x y : Instruction), p.code[k]? = some x → q.code[k]? = some y →
        y.op = x.op ∧ y.target = x.target ∧ (y.position = x.position ↔ k < 4) ∧
        y.line = x.line := by
  obtain ⟨p, hp⟩ : ∃ p, Program.compile {} { bytes := text "[+[," } {} = (.ok p, {}) := ⟨_, rfl⟩
  obtain ⟨n, hn, -, q, hq, hsize, hsame⟩ := compile_closes_implicitly hp {}
  obtain rfl : n = 2 := Int.ofNat.inj (hn.symm.trans rfl)
  refine ⟨p, q, hp, hq, hsize, fun k x y hx hy => ?_⟩
  obtain ⟨hop, htarget, hposition, hline⟩ := hsame k x y hx hy
  exact ⟨hop, htarget, hposition, hline rfl⟩

end Brainfuck
