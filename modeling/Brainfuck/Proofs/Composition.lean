import Brainfuck.Proofs.Closing
import Brainfuck.Proofs.Positions

/-!
# Composition of sources

The code of a source that leaves no bracket open can be moved. In front of another source it stays
as it is and the other code is moved behind it; inside a loop it is moved behind the guard.

## Main Definitions

* `Tree.append` — a tree and what follows it
* `Instruction.bare` — an instruction without its position and its line
* `Instruction.moved` — the same further on in the code

## Main Results

* `Tree.ofCommands_append`, `Tree.ofCommands_loop` — the tree of a composed command sequence
* `LaidOut.exists_append`, `LaidOut.map_bare` — its layout, and what two layouts of one tree show
* `Program.exists_compile_iff` — which sources compile
* `compile_composes` — compositions of sources

## Design Notes

Jump targets are indices into the whole code, and a guard gets its target only when its loop is
closed. Nothing of this has to be followed through a compilation again: compiled code is laid out
along the tree of its commands, and a tree has one layout up to the index at which it starts.
-/

namespace Brainfuck

/-! ## Trees -/

namespace Tree

/-- A tree and what follows it. -/
def append : Tree → Tree → Tree
  | done, next => next
  | act a rest, next => act a (rest.append next)
  | loop body rest, next => loop body (rest.append next)

@[simp] theorem append_done (tree : Tree) : tree.append done = tree := by
  induction tree with
  | done => rfl
  | act a rest ih => rw [append, ih]
  | loop body rest _ ih => rw [append, ih]

/-- A balanced sequence is read as a tree of its own, whatever follows it. -/
theorem read_append {xs : List Command} (h : Balanced xs) (ys : List Command) :
    read (xs ++ ys) = ((read xs).1.append (read ys).1, (read ys).2) := by
  induction h generalizing ys with
  | nil => rfl
  | @act a ops _ ih =>
      rw [List.cons_append, read_primitive, ih, read_primitive]
      rfl
  | @loop body rest _ _ ihbody ihrest =>
      have hloop (next : List Command) : read (.loopStart :: (body ++ .loopEnd :: next)) =
          (loop (read body).1 (read next).1, (read next).2) := by
        rw [read_loopStart, ihbody, read_loopEnd, append_done]
        rfl
      simp only [List.cons_append, List.append_assoc]
      rw [hloop, hloop, ihrest]
      rfl

theorem ofCommands_append {xs : List Command} (h : Balanced xs) (ys : List Command) :
    ofCommands (xs ++ ys) = (ofCommands xs).append (ofCommands ys) := by
  rw [ofCommands, read_append h]
  rfl

theorem ofCommands_loop {body : List Command} (h : Balanced body) :
    ofCommands (.loopStart :: body ++ [.loopEnd]) = loop (ofCommands body) done := by
  rw [ofCommands, List.cons_append, read_loopStart, read_append h, read_loopEnd, append_done]
  rfl

end Tree

/-- A balanced sequence in front closes nothing of what follows it. -/
theorem Balanced.neverClosed_append {xs ys : List Command} (h : Balanced xs) :
    NeverClosed (xs ++ ys) ↔ NeverClosed ys := by
  constructor
  · intro hall front hfront
    have hdepth := hall (xs ++ front) ((List.prefix_append_right_inj xs).mpr hfront)
    rwa [depth_append, h.depth_eq_zero, Int.zero_add] at hdepth
  · intro hall front hfront
    rcases prefix_append_cases hfront with hfront | ⟨tail, rfl, htail⟩
    · exact h.neverClosed front hfront
    · rw [depth_append, h.depth_eq_zero, Int.zero_add]
      exact hall tail htail

/-! ## Layouts -/

namespace Instruction

/-- The operation and the target of an instruction. -/
def bare (x : Instruction) : Option Command × Int :=
  (x.op, x.target)

/-- The operation and the target that an instruction has `n` instructions further on: jumps keep
their distance. -/
def moved (n : Int) (x : Instruction) : Option Command × Int :=
  (x.op, if x.isJump then x.target + n else x.target)

theorem moved_zero : moved 0 = bare := by
  funext x
  rw [moved, Int.add_zero, ite_self, bare]

end Instruction

namespace LaidOut

variable {code : Code} {i j : Nat}

/-- A layout of a tree and what follows it is a layout of each of them. -/
theorem exists_append {first second : Tree} (h : LaidOut code i (first.append second) j) :
    ∃ k, LaidOut code i first k ∧ LaidOut code k second j := by
  induction first generalizing i with
  | done => exact ⟨i, .done i, h⟩
  | act a rest ih =>
      cases h with
      | act hx hop htarget hrest =>
          obtain ⟨k, hfirst, hsecond⟩ := ih hrest
          exact ⟨k, .act hx hop htarget hfirst, hsecond⟩
  | loop body rest _ ih =>
      cases h with
      | loop hx hop hjoined hbody hrest =>
          obtain ⟨k, hfirst, hsecond⟩ := ih hrest
          exact ⟨k, .loop hx hop hjoined hbody hfirst, hsecond⟩

/-- A layout of a loop with nothing behind it. -/
theorem exists_loop {body : Tree} (h : LaidOut code i (.loop body .done) j) :
    ∃ k x, j = k + 1 ∧ code[i]? = some x ∧ x.op = some .loopStart ∧ Joined code i k ∧
      LaidOut code (i + 1) body k := by
  cases h with
  | @loop _ k _ _ _ x hx hop hjoined hbody hrest =>
      cases hrest
      exact ⟨k, x, rfl, hx, hop, hjoined, hbody⟩

/-- Two layouts of one tree show the same instructions, moved by the distance between them. -/
theorem map_bare {code' : Code} {i' j' : Nat} {tree : Tree} {n : Int} (h : LaidOut code i tree j)
    (h' : LaidOut code' i' tree j') (hn : (i' : Int) = i + n) (hj : j ≤ code.size)
    (hj' : j' ≤ code'.size) :
    (code'.extract i' j').toList.map Instruction.bare =
      (code.extract i j).toList.map (Instruction.moved n) := by
  obtain ⟨hend, hmoved⟩ := h.relocate h' hn
  ext1 k
  simp only [List.getElem?_map, Array.getElem?_toList, Array.getElem?_extract]
  by_cases hk : k < j - i
  · obtain ⟨x, y, hx, hy, hop, htarget⟩ :=
      hmoved (i + k) (i' + k) (by omega) (by omega) (by omega)
    rw [if_pos (by omega), if_pos (by omega), hx, hy, Option.map_some, Option.map_some,
      Instruction.bare, Instruction.moved, hop, htarget]
  · rw [if_neg (by omega), if_neg (by omega)]
    rfl

end LaidOut

/-! ## Programs -/

theorem Draft.Pending.balanced {cs : List (Command × Position)} (h : Pending cs []) :
    Balanced (cs.map Prod.fst) := by
  cases h with
  | none hbalanced => exact hbalanced

namespace Program

/-- Which sources compile. -/
theorem exists_compile_iff (strict : Bool) (s : Bytes) (disk : Disk) :
    (∃ p, compile { strict } { bytes := s } disk = (.ok p, disk)) ↔
      NeverClosed ((commands s).map Prod.fst) ∧
        (strict = true → depth ((commands s).map Prod.fst) = 0) := by
  rw [← not_overclosed_iff]
  rcases compile_cases s disk with ⟨p, hp, hall⟩ |
    ⟨hover, hpos, ⟨program, hok⟩, p, -, herror⟩ | ⟨hover, hzero, program, hall⟩
  · simp [hall, Draft.overclosed_of_firstUnmatched hp]
  · cases strict with
    | false => simp [hok, hover]
    | true => simp [herror, Int.ne_of_gt hpos]
  · simp [hall, hover, hzero]

/-- Balanced sources compile with any setting of the brackets. -/
theorem exists_compile_of_balanced {s : Bytes} (h : Balanced ((commands s).map Prod.fst))
    (strict : Bool) (disk : Disk) :
    ∃ p, compile { strict } { bytes := s } disk = (.ok p, disk) :=
  (exists_compile_iff strict s disk).mpr ⟨h.neverClosed, fun _ => h.depth_eq_zero⟩

section Composed

variable {settings settings₁ settings₂ : CompileSettings} {s s₁ s₂ : Bytes}
  {disk disk' disk₁ disk₁' disk₂ disk₂' : Disk} {p p₁ p₂ : Program}

/-- A source that compiles and leaves no bracket open is balanced. -/
theorem balanced_of_compile (h : compile settings { bytes := s } disk = (.ok p, disk'))
    (hzero : depth ((commands s).map Prod.fst) = 0) : Balanced ((commands s).map Prod.fst) := by
  obtain ⟨d, hrun, hnil, -⟩ := exists_draft_of_compile h
  have hclosed : closed (commands s) = commands s := by
    rw [closed, hzero]
    exact List.append_nil _
  have hpending := Draft.run_pending hrun
  rw [hclosed, hnil] at hpending
  exact hpending.balanced

/-- The code of a balanced source and another one behind it. -/
theorem map_bare_append (h₁ : compile settings₁ { bytes := s₁ } disk₁ = (.ok p₁, disk₁'))
    (hbalanced : Balanced ((commands s₁).map Prod.fst))
    (h₂ : compile settings₂ { bytes := s₂ } disk₂ = (.ok p₂, disk₂'))
    (h : compile settings { bytes := s₁ ++ s₂ } disk = (.ok p, disk')) :
    p.code.toList.map Instruction.bare =
      p₁.code.toList.map Instruction.bare ++
        p₂.code.toList.map (Instruction.moved p₁.code.size) := by
  have hlay := laidOut_of_compile h
  simp only [map_fst_commands_append, Tree.ofCommands_append hbalanced] at hlay
  obtain ⟨k, hfirst, hsecond⟩ := hlay.exists_append
  have hlay₁ := laidOut_of_compile h₁
  have hlay₂ := laidOut_of_compile h₂
  obtain ⟨hk, -⟩ := hlay₁.relocate hfirst (n := 0) rfl
  obtain rfl : k = p₁.code.size := by omega
  have hle := hsecond.le
  have hfront := hlay₁.map_bare hfirst (n := 0) rfl (Nat.le_refl _) hle
  have hback := hlay₂.map_bare hsecond (n := p₁.code.size) (by omega) (Nat.le_refl _)
    (Nat.le_refl _)
  rw [Instruction.moved_zero, Array.extract_size] at hfront
  rw [Array.extract_size] at hback
  rw [← hfront, ← hback, ← List.map_append, ← LaidOut.extract_append (Nat.zero_le _) hle,
    Array.extract_size]

/-- The code of a loop around a balanced source. -/
theorem map_bare_loop (h₁ : compile settings₁ { bytes := s₁ } disk₁ = (.ok p₁, disk₁'))
    (hbalanced : Balanced ((commands s₁).map Prod.fst))
    (hcommands : (commands s).map Prod.fst =
      .loopStart :: (commands s₁).map Prod.fst ++ [.loopEnd])
    (h : compile settings { bytes := s } disk = (.ok p, disk')) :
    p.code.toList.map Instruction.bare =
      (some .loopStart, (p₁.code.size : Int) + 2) :: p₁.code.toList.map (Instruction.moved 1) ++
        [(some .loopEnd, 0)] := by
  have hlay := laidOut_of_compile h
  simp only [hcommands, Tree.ofCommands_loop hbalanced] at hlay
  have hlay₁ := laidOut_of_compile h₁
  obtain ⟨k, x, hend, hx, hop, hjoined, hbody⟩ := hlay.exists_loop
  obtain ⟨hk, -⟩ := hlay₁.relocate hbody (n := 1) rfl
  obtain rfl : k = p₁.code.size + 1 := by omega
  have htarget : x.target = (p₁.code.size : Int) + 2 := by
    rw [hjoined.target_eq hx]
    omega
  obtain ⟨-, exit, -, -, hexit, hopexit, hback⟩ := hjoined
  have hguard : x.bare = (some .loopStart, (p₁.code.size : Int) + 2) := Prod.ext hop htarget
  have hlast : exit.bare = (some .loopEnd, 0) := Prod.ext hopexit hback
  have hinner := hlay₁.map_bare hbody (n := 1) rfl (Nat.le_refl _) (by omega)
  rw [Array.extract_size] at hinner
  have hwhole : p.code.toList = (p.code.extract 0 (p₁.code.size + 2)).toList := by
    rw [← hend, Array.extract_size]
  rw [hwhole, LaidOut.extract_cons hx (by omega),
    LaidOut.extract_append (k := p₁.code.size + 1) (by omega) (by omega),
    LaidOut.extract_cons hexit (by omega), Array.extract_empty_of_stop_le_start (Nat.le_refl _),
    List.map_cons, List.map_append, List.map_cons, hinner, hguard, hlast]
  rfl

end Composed

end Program

/-- **Compilation composes.** Take a source that compiles and leaves no bracket open. In front of
another source, it compiles if and only if the other one does. The code is then its own, followed by
that of the other source, in which every jump leads further on by the size of the first code. Inside
a pair of brackets it compiles as well, and to a guard, its own code, moved on by one, and an exit:
the guard leads behind the exit, and the exit to the guard. -/
theorem compile_composes {s₁ : Bytes} {disk : Disk} {p₁ : Program}
    (h₁ : Program.compile {} { bytes := s₁ } disk = (.ok p₁, disk))
    (hzero : depth ((commands s₁).map Prod.fst) = 0) (s₂ : Bytes) (strict : Bool) :
    ((∃ p, Program.compile { strict } { bytes := s₁ ++ s₂ } disk = (.ok p, disk)) ↔
      ∃ p₂, Program.compile { strict } { bytes := s₂ } disk = (.ok p₂, disk)) ∧
    (∀ p p₂, Program.compile { strict } { bytes := s₁ ++ s₂ } disk = (.ok p, disk) →
      Program.compile { strict } { bytes := s₂ } disk = (.ok p₂, disk) →
        p.code.toList.map Instruction.bare =
          p₁.code.toList.map Instruction.bare ++
            p₂.code.toList.map (Instruction.moved p₁.code.size)) ∧
    ∃ p, Program.compile { strict } { bytes := text "[" ++ s₁ ++ text "]" } disk = (.ok p, disk) ∧
      p.code.toList.map Instruction.bare =
        (some .loopStart, (p₁.code.size : Int) + 2) ::
          p₁.code.toList.map (Instruction.moved 1) ++ [(some .loopEnd, 0)] := by
  have hbalanced := Program.balanced_of_compile h₁ hzero
  refine ⟨?_, fun p p₂ h h₂ => Program.map_bare_append h₁ hbalanced h₂ h, ?_⟩
  · rw [Program.exists_compile_iff, Program.exists_compile_iff, map_fst_commands_append,
      hbalanced.neverClosed_append, depth_append, hzero, Int.zero_add]
  · have hcommands : (commands (text "[" ++ s₁ ++ text "]")).map Prod.fst =
        .loopStart :: (commands s₁).map Prod.fst ++ [.loopEnd] := by
      rw [map_fst_commands_append, map_fst_commands_append]
      rfl
    have hloop : Balanced ((commands (text "[" ++ s₁ ++ text "]")).map Prod.fst) := by
      rw [hcommands]
      exact .loop hbalanced .nil
    obtain ⟨p, hp⟩ := Program.exists_compile_of_balanced hloop strict disk
    exact ⟨p, hp, Program.map_bare_loop h₁ hbalanced hcommands hp⟩

/-- The first source ends within a character, the second one goes on with it and leaves a bracket
open. -/
theorem compile_composes_within_character :
    ∃ p₁ p₂ p, Program.compile {} { bytes := text "[-]" ++ [0xC3] } {} = (.ok p₁, {}) ∧
      depth ((commands (text "[-]" ++ [0xC3])).map Prod.fst) = 0 ∧
      Program.compile {} { bytes := 0xA9 :: text "[." } {} = (.ok p₂, {}) ∧
      Program.compile {} { bytes := text "[-]" ++ [0xC3] ++ 0xA9 :: text "[." } {} = (.ok p, {}) ∧
      p.code.toList.map Instruction.bare =
        p₁.code.toList.map Instruction.bare ++ p₂.code.toList.map (Instruction.moved 3) := by
  obtain ⟨p₁, h₁, hsize⟩ : ∃ p₁, Program.compile {} { bytes := text "[-]" ++ [0xC3] } {} =
      (.ok p₁, {}) ∧ p₁.code.size = 3 := ⟨_, rfl, rfl⟩
  obtain ⟨p₂, h₂⟩ : ∃ p₂, Program.compile {} { bytes := 0xA9 :: text "[." } {} = (.ok p₂, {}) :=
    ⟨_, rfl⟩
  have hzero : depth ((commands (text "[-]" ++ [0xC3])).map Prod.fst) = 0 := by decide
  obtain ⟨haccepts, hcode, -⟩ := compile_composes h₁ hzero (0xA9 :: text "[.") false
  obtain ⟨p, hp⟩ := haccepts.mpr ⟨p₂, h₂⟩
  have hcode := hcode p p₂ hp h₂
  rw [hsize] at hcode
  exact ⟨p₁, p₂, p, h₁, hzero, h₂, hp, hcode⟩

end Brainfuck
