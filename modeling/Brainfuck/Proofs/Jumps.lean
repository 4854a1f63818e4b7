import Brainfuck.Proofs.Compilation

/-!
# Jumps

Finished code is laid out along a tree: a primitive takes one instruction, a loop takes its guard,
the layout of its body and its exit, and the two jumps name each other's index.

## Main Definitions

* `Joined` — an instruction and an exit that name each other
* `LaidOut` — a stretch of code that stands for a tree
* `Draft.Resumes` — how finished code goes on from a draft
* `Partners` — a guard and an exit with balanced code between them

## Main Results

* `Draft.resumes_of_run` — a run lays out the trees that are read from its commands
* `Program.laidOut_of_compile` — compiled code is laid out along the tree of its source
* `LaidOut.relocate`, `LaidOut.same` — a tree has one layout up to the index at which it starts
* `compile_jumps_match` — every jump of compiled code has its partner

## Design Notes

`Tree.read` and a run take the same commands from opposite ends. At each command the trees of what
is left are known, and so is the index at which the code for them starts; what is not known is where
they end. `Draft.Resumes` says that there are such ends, one for each open guard.
-/

namespace Brainfuck

/-- The instruction at `i` is joined to the exit at `j`: its target is the index after the exit, and
the exit jumps back to it. -/
def Joined (code : Code) (i j : Nat) : Prop :=
  ∃ x exit, code[i]? = some x ∧ x.target = j + 1 ∧ code[j]? = some exit ∧
    exit.op = some .loopEnd ∧ exit.target = i

/-- The instruction of a joined pair goes to the index behind its exit. -/
theorem Joined.target_eq {code : Code} {i j : Nat} {x : Instruction} (h : Joined code i j)
    (hx : code[i]? = some x) : x.target = j + 1 := by
  obtain ⟨y, -, hy, htarget, -⟩ := h
  cases hx.symm.trans hy
  exact htarget

/-- The code from `i` to before `j` stands for a tree. -/
inductive LaidOut (code : Code) : Nat → Tree → Nat → Prop where
  | done (i : Nat) : LaidOut code i .done i
  | act {i j : Nat} {a : Primitive} {rest : Tree} {x : Instruction} :
      code[i]? = some x → x.op = some a.command → x.target = 0 → LaidOut code (i + 1) rest j →
        LaidOut code i (.act a rest) j
  | loop {i k j : Nat} {body rest : Tree} {x : Instruction} :
      code[i]? = some x → x.op = some .loopStart → Joined code i k →
        LaidOut code (i + 1) body k → LaidOut code (k + 1) rest j →
          LaidOut code i (.loop body rest) j

/-! ## From drafts to layouts -/

namespace Draft

/-- How finished code goes on at index `i`: with a tree up to the exit of the innermost open guard,
then with the tree that follows this exit, and so on up to the end. -/
def Resumes (code : Code) : Nat → Tree → List Tree → List Guard → Prop
  | i, tree, [], [] => LaidOut code i tree code.size
  | i, tree, next :: outer, g :: guards =>
    ∃ k, LaidOut code i tree k ∧ Joined code g.start k ∧ Resumes code (k + 1) next outer guards
  | _, _, _, _ => False

/-- What comes before the tree at an index may be laid out with it. -/
theorem Resumes.prepend {code : Code} {i i' : Nat} {tree tree' : Tree} {outer : List Tree}
    {guards : List Guard} (h : Resumes code i tree outer guards)
    (hlay : ∀ k, LaidOut code i tree k → LaidOut code i' tree' k) :
    Resumes code i' tree' outer guards := by
  cases outer with
  | nil =>
      cases guards with
      | nil => exact hlay _ h
      | cons g guards => exact h
  | cons next outer =>
      cases guards with
      | nil => exact h
      | cons g guards =>
          obtain ⟨k, htree, hrest⟩ := h
          exact ⟨k, hlay k htree, hrest⟩

/-- The instruction that a command appends, if it is no guard, is final. -/
theorem getElem?_of_run {traced : Bool} {d d₁ d' : Draft} {c : Command} {p : Position}
    {cs : List (Command × Position)} (hd : d.Nested) (haccept : d.accept traced c p = .ok d₁)
    (hrun : d₁.run traced cs = .ok d') (hc : c ≠ .loopStart) :
    d'.code[d.code.size]? = d₁.code[d.code.size]? := by
  refine run_getElem? hrun (by rw [accept_size haccept]; omega) fun g hg => ?_
  rcases accept_cases haccept with ⟨a, -, rfl⟩ | ⟨rfl, -⟩ | ⟨g', outer, -, hguards, rfl⟩
  · exact Nat.ne_of_lt (hd.start_lt hg)
  · exact absurd rfl hc
  · exact Nat.ne_of_lt (hd.start_lt (by rw [hguards]; exact List.mem_cons_of_mem _ hg))

/-- The operation of an instruction never changes. -/
theorem op_of_run {traced : Bool} {d d' : Draft} {c : Command} {p : Position}
    {cs : List (Command × Position)} (hrun : d.run traced ((c, p) :: cs) = .ok d') :
    ∃ x, d'.code[d.code.size]? = some x ∧ x.op = some c := by
  have hlisted := congrArg (·[d.code.size]?) (run_listed hrun)
  rw [List.getElem?_append_right (by simp), listed_getElem?, listed_length, Nat.sub_self,
    List.map_cons, List.getElem?_cons_zero, Option.map_eq_some_iff] at hlisted
  obtain ⟨x, hx, heq⟩ := hlisted
  exact ⟨x, hx, congrArg Prod.fst heq⟩

/-- A loop that is closed now is joined in the finished code. -/
theorem joined_of_leave {traced : Bool} {d d' : Draft} {p : Position} {g : Guard}
    {outer : List Guard} {cs : List (Command × Position)} (hd : d.Nested)
    (hguards : d.guards = g :: outer)
    (hrun : (d.leave traced p g outer).run traced cs = .ok d') :
    Joined d'.code g.start d.code.size := by
  have haccept := accept_loopEnd_cons traced p hguards
  have hstart : g.start < d.code.size := hd.start_lt (by simp [hguards])
  have hexit := getElem?_of_run hd haccept hrun (by simp)
  have hpatched := run_getElem? (k := g.start) hrun (by rw [accept_size haccept]; omega)
    fun g' hg' => Nat.ne_of_lt (hd.start_lt_start hguards hg')
  rw [leave, Array.getElem?_modify, if_neg (Nat.ne_of_lt hstart), Array.getElem?_push_size] at hexit
  rw [leave, Array.getElem?_modify, if_pos rfl, Array.getElem?_push_lt hstart,
    Option.map_some] at hpatched
  refine ⟨_, _, hpatched, ?_, hexit, rfl, rfl⟩
  simp

/-- **A run lays out the trees that are read from its commands.** The induction is on the commands
still to come; the finished code is fixed, so nothing that is known of it has to be carried on. -/
theorem resumes_of_run {traced : Bool} {d d' : Draft} {cs : List (Command × Position)}
    (hd : d.Nested) (hrun : d.run traced cs = .ok d') (hnil : d'.guards = []) :
    Resumes d'.code d.code.size (Tree.read (cs.map Prod.fst)).1
      (Tree.read (cs.map Prod.fst)).2 d.guards := by
  induction cs generalizing d with
  | nil =>
      cases hrun
      rw [hnil]
      exact .done _
  | cons x cs ih =>
      obtain ⟨c, p⟩ := x
      obtain ⟨d₁, haccept, htail⟩ := run_cons_eq_ok hrun
      have hrest := ih (accept_nested hd haccept) htail
      rw [accept_size haccept] at hrest
      rw [List.map_cons]
      rcases accept_cases haccept with ⟨a, rfl, rfl⟩ | ⟨rfl, rfl⟩ | ⟨g, outer, rfl, hguards, rfl⟩
      · have hx := getElem?_of_run hd haccept htail (by simp)
        rw [put, Array.getElem?_push_size] at hx
        rw [Tree.read_primitive]
        exact hrest.prepend fun k hk => .act hx rfl rfl hk
      · obtain ⟨x, hx, hop⟩ := op_of_run hrun
        rw [Tree.read_loopStart]
        rw [enter_guards] at hrest
        -- the new guard is open, so what follows resumes with at least one more tree
        generalize (Tree.read (cs.map Prod.fst)).2 = trees at hrest
        cases trees with
        | nil => exact hrest.elim
        | cons next outer =>
            obtain ⟨k, hbody, hjoined, hafter⟩ := hrest
            exact hafter.prepend fun j hj => .loop hx hop hjoined hbody hj
      · -- the exit is written here: the tree at this index is empty and ends at once
        rw [Tree.read_loopEnd, hguards]
        exact ⟨d.code.size, .done _, joined_of_leave hd hguards htail, hrest⟩

end Draft

/-- Code in which nothing is left open is laid out along the tree of its commands. -/
theorem Draft.laidOut_of_run {traced : Bool} {d : Draft} {cs : List (Command × Position)}
    (hrun : empty.run traced cs = .ok d) (hnil : d.guards = []) :
    LaidOut d.code 0 (Tree.ofCommands (cs.map Prod.fst)) d.code.size := by
  have h := resumes_of_run nested_empty hrun hnil
  rw [Tree.ofCommands]
  generalize (Tree.read (cs.map Prod.fst)).2 = trees at h
  cases trees with
  | nil => exact h
  | cons next outer => exact h.elim

theorem map_closed (cs : List (Command × Position)) :
    (closed cs).map Prod.fst =
      cs.map Prod.fst ++ List.replicate (depth (cs.map Prod.fst)).toNat .loopEnd := by
  simp [closed]

/-- Compiled code is laid out along the tree of its source. -/
theorem Program.laidOut_of_compile {settings : CompileSettings} {source : Feed}
    {disk disk' : Disk} {p : Program} (h : compile settings source disk = (.ok p, disk')) :
    LaidOut p.code 0 (Tree.ofCommands ((commands source.bytes).map Prod.fst)) p.code.size := by
  obtain ⟨d, hrun, hnil, hcode⟩ := exists_draft_of_compile h
  have hlay := Draft.laidOut_of_run hrun hnil
  rw [map_closed, Tree.ofCommands_append_closers] at hlay
  rw [hcode]
  exact hlay

/-! ## What a layout says -/

namespace LaidOut

variable {code : Code} {i j : Nat} {tree : Tree}

theorem le (h : LaidOut code i tree j) : i ≤ j := by
  induction h with
  | done i => exact Nat.le_refl i
  | act _ _ _ _ ih => omega
  | loop _ _ _ _ _ ihbody ihrest => omega

/-- A stretch of code begins with its first instruction. -/
theorem extract_cons {x : Instruction} (hx : code[i]? = some x) (hij : i < j) :
    (code.extract i j).toList = x :: (code.extract (i + 1) j).toList := by
  obtain ⟨hi, rfl⟩ := Array.getElem?_eq_some_iff.mp hx
  simp only [Array.toList_extract, List.extract_eq_take_drop]
  rw [List.drop_eq_getElem_cons (by simpa using hi), show j - i = j - (i + 1) + 1 by omega,
    List.take_succ_cons, Array.getElem_toList]

theorem extract_append {k : Nat} (hik : i ≤ k) (hkj : k ≤ j) :
    (code.extract i j).toList = (code.extract i k).toList ++ (code.extract k j).toList := by
  rw [← Array.toList_append, Array.extract_append_extract, Nat.min_eq_left hik,
    Nat.max_eq_right hkj]

/-- A layout spells its tree. -/
theorem ops_eq (h : LaidOut code i tree j) :
    (code.extract i j).toList.map Instruction.op = tree.commands.map some := by
  induction h with
  | done i => simp [Tree.commands]
  | act hx hop _ hrest ih =>
      rw [extract_cons hx hrest.le, List.map_cons, ih, hop]
      rfl
  | @loop i k j body rest x hx hop hjoined hbody hrest ihbody ihrest =>
      obtain ⟨-, exit, -, -, hexit, hopexit, -⟩ := hjoined
      have hik := hbody.le
      have hkj := hrest.le
      rw [extract_cons hx (by omega), extract_append hik (by omega), extract_cons hexit (by omega),
        List.map_cons, List.map_append, List.map_cons, ihbody, ihrest, hop, hopexit]
      simp [Tree.commands]

end LaidOut

/-- The guard at `i` and the exit at `j` belong to one loop: they name each other's index, and the
code between them is balanced. -/
structure Partners (code : Code) (i j : Nat) : Prop where
  lt : i < j
  guard : ∃ x, code[i]? = some x ∧ x.op = some .loopStart ∧ x.target = j + 1
  exit : ∃ x, code[j]? = some x ∧ x.op = some .loopEnd ∧ x.target = i
  between : ∃ ops, Balanced ops ∧
    (code.extract (i + 1) j).toList.map Instruction.op = ops.map some

/-- An instruction of finished code: a primitive without a target, a guard or an exit. -/
inductive Settled (code : Code) (k : Nat) : Prop where
  | act {a : Primitive} {x : Instruction} :
      code[k]? = some x → x.op = some a.command → x.target = 0 → Settled code k
  | guard {j : Nat} : Partners code k j → Settled code k
  | exit {i : Nat} : Partners code i k → Settled code k

namespace LaidOut

variable {code : Code} {i j : Nat} {tree : Tree}

theorem partners {k : Nat} {x : Instruction} {body : Tree} (hx : code[i]? = some x)
    (hop : x.op = some .loopStart) (hjoined : Joined code i k)
    (hbody : LaidOut code (i + 1) body k) : Partners code i k := by
  have htarget := hjoined.target_eq hx
  obtain ⟨-, exit, -, -, hexit, hopexit, hback⟩ := hjoined
  exact ⟨hbody.le, ⟨x, hx, hop, htarget⟩, ⟨exit, hexit, hopexit, hback⟩,
    body.commands, body.balanced_commands, hbody.ops_eq⟩

/-- Every instruction of a layout is settled. -/
theorem settled (h : LaidOut code i tree j) {k : Nat} (hik : i ≤ k) (hkj : k < j) :
    Settled code k := by
  induction h with
  | done i => omega
  | @act i j a rest x hx hop htarget _ ih =>
      rcases Nat.eq_or_lt_of_le hik with rfl | hlt
      · exact .act hx hop htarget
      · exact ih hlt hkj
  | @loop i e j body rest x hx hop hjoined hbody hrest ihbody ihrest =>
      have hpartners := partners hx hop hjoined hbody
      rcases Nat.eq_or_lt_of_le hik with rfl | hlt
      · exact .guard hpartners
      · rcases Nat.lt_trichotomy k e with hke | rfl | hek
        · exact ihbody hlt hke
        · exact .exit hpartners
        · exact ihrest hek hkj

end LaidOut

/-- **Every jump of compiled code has its partner.** A guard has one exit behind it and an exit
one guard before it, they name each other, and the code between them is balanced; everything else
is a primitive without a target. -/
theorem compile_jumps_match {settings : CompileSettings} {source : Feed} {disk disk' : Disk}
    {p : Program} (h : Program.compile settings source disk = (.ok p, disk')) {i : Nat}
    {x : Instruction} (hx : p.code[i]? = some x) :
    (x.op = some .loopStart → ∃ j, Partners p.code i j) ∧
      (x.op = some .loopEnd → ∃! k, Partners p.code k i) ∧
      (x.op ≠ some .loopStart → x.op ≠ some .loopEnd →
        (∃ a : Primitive, x.op = some a.command) ∧ x.target = 0) ∧
      (x.op = some .loopStart → x.target ≠ 0) ∧ x.op ≠ none := by
  have hi := (Array.getElem?_eq_some_iff.mp hx).1
  cases (Program.laidOut_of_compile h).settled (Nat.zero_le i) hi with
  | @act a y hy hop htarget =>
      cases hx.symm.trans hy
      simp [hop, htarget]
  | @guard j hpartners =>
      obtain ⟨y, hy, hop, htarget⟩ := hpartners.guard
      cases hx.symm.trans hy
      refine ⟨fun _ => ⟨j, hpartners⟩, by simp [hop], by simp [hop], fun _ => ?_, by simp [hop]⟩
      omega
  | @exit k hpartners =>
      obtain ⟨y, hy, hop, htarget⟩ := hpartners.exit
      cases hx.symm.trans hy
      refine ⟨by simp [hop], fun _ => ⟨k, hpartners, fun k' hk' => ?_⟩, by simp [hop],
        by simp [hop], by simp [hop]⟩
      obtain ⟨z, hz, -, htarget'⟩ := hk'.exit
      cases hx.symm.trans hz
      omega

/-- An inner loop and an outer one that is closed by the end of the source. -/
theorem compile_jumps_match_nested :
    ∃ p x y, Program.compile {} { bytes := text "[[-]" } {} = (.ok p, {}) ∧
      p.code[0]? = some x ∧ x.op = some .loopStart ∧ p.code[4]? = some y ∧
      y.op = some .loopEnd ∧ (∃ j, Partners p.code 0 j) ∧ ∃! k, Partners p.code k 4 := by
  have h : ∃ p, Program.compile {} { bytes := text "[[-]" } {} = (.ok p, {}) ∧
      (∃ x, p.code[0]? = some x ∧ x.op = some .loopStart) ∧
      ∃ y, p.code[4]? = some y ∧ y.op = some .loopEnd :=
    ⟨_, rfl, ⟨_, rfl, rfl⟩, _, rfl, rfl⟩
  obtain ⟨p, hp, ⟨x, hx, hguard⟩, y, hy, hexit⟩ := h
  exact ⟨p, x, y, hp, hx, hguard, hy, hexit, (compile_jumps_match hp hx).1 hguard,
    (compile_jumps_match hp hy).2.1 hexit⟩

/-! ## One layout for a tree -/

/-- The instruction `y` is `x`, `n` instructions further on: jumps keep their distance. -/
def MovedBy (n : Int) (x y : Instruction) : Prop :=
  y.op = x.op ∧ y.target = if x.isJump then x.target + n else x.target

theorem movedBy_primitive {n : Int} {a : Primitive} {x y : Instruction}
    (hx : x.op = some a.command) (hy : y.op = some a.command) (htarget : y.target = x.target) :
    MovedBy n x y := by
  refine ⟨hy.trans hx.symm, ?_⟩
  cases a <;> simp [Instruction.isJump, hx, htarget, Primitive.command, Command.isJump]

theorem movedBy_jump {n : Int} {c : Command} {x y : Instruction} (hc : c.isJump = true)
    (hx : x.op = some c) (hy : y.op = some c) (htarget : y.target = x.target + n) :
    MovedBy n x y := by
  refine ⟨hy.trans hx.symm, ?_⟩
  simp [Instruction.isJump, hx, hc, htarget]

/-- A tree has one layout, up to the index at which it starts. -/
theorem LaidOut.relocate {code code' : Code} {i j i' j' : Nat} {tree : Tree} {n : Int}
    (h : LaidOut code i tree j) (h' : LaidOut code' i' tree j') (hn : (i' : Int) = i + n) :
    (j' : Int) = j + n ∧ ∀ k k' : Nat, i ≤ k → k < j → (k' : Int) = k + n →
      ∃ x y, code[k]? = some x ∧ code'[k']? = some y ∧ MovedBy n x y := by
  induction h generalizing i' j' with
  | done i =>
      cases h'
      exact ⟨hn, fun k k' hik hkj => by omega⟩
  | @act i j a rest x hx hop htarget _ ih =>
      cases h' with
      | @act _ _ _ _ y hy hop' htarget' hrest' =>
          obtain ⟨hend, hmoved⟩ := ih hrest' (by omega)
          refine ⟨hend, fun k k' hik hkj hk => ?_⟩
          rcases Nat.eq_or_lt_of_le hik with rfl | hlt
          · obtain rfl : k' = i' := by omega
            exact ⟨x, y, hx, hy, movedBy_primitive hop hop' (htarget'.trans htarget.symm)⟩
          · exact hmoved k k' hlt hkj hk
  | @loop i e j body rest x hx hop hjoined hbody hrest ihbody ihrest =>
      cases h' with
      | @loop _ e' _ _ _ y hy hop' hjoined' hbody' hrest' =>
          obtain ⟨hbodyEnd, hbodyMoved⟩ := ihbody hbody' (by omega)
          obtain ⟨hend, hmoved⟩ := ihrest hrest' (by omega)
          have hp := partners hx hop hjoined hbody
          have hp' := partners hy hop' hjoined' hbody'
          refine ⟨hend, fun k k' hik hkj hk => ?_⟩
          rcases Nat.eq_or_lt_of_le hik with rfl | hlt
          · obtain rfl : k' = i' := by omega
            obtain ⟨u, hu, hopu, htu⟩ := hp.guard
            obtain ⟨v, hv, hopv, htv⟩ := hp'.guard
            exact ⟨u, v, hu, hv, movedBy_jump rfl hopu hopv (by omega)⟩
          · rcases Nat.lt_trichotomy k e with hke | rfl | hek
            · exact hbodyMoved k k' hlt hke hk
            · obtain rfl : k' = e' := by omega
              obtain ⟨u, hu, hopu, htu⟩ := hp.exit
              obtain ⟨v, hv, hopv, htv⟩ := hp'.exit
              exact ⟨u, v, hu, hv, movedBy_jump rfl hopu hopv (by omega)⟩
            · exact hmoved k k' hek hkj hk

/-- Two codes of one tree have the same operations and targets. -/
theorem LaidOut.same {code code' : Code} {tree : Tree} (h : LaidOut code 0 tree code.size)
    (h' : LaidOut code' 0 tree code'.size) :
    code'.size = code.size ∧ ∀ (k : Nat) (x y : Instruction), code[k]? = some x →
      code'[k]? = some y → y.op = x.op ∧ y.target = x.target := by
  obtain ⟨hsize, hmoved⟩ := h.relocate h' (n := 0) rfl
  refine ⟨by omega, fun k x y hx hy => ?_⟩
  obtain ⟨hk, -⟩ := Array.getElem?_eq_some_iff.mp hx
  obtain ⟨u, v, hu, hv, hop, htarget⟩ := hmoved k k (Nat.zero_le k) hk (by simp)
  cases hx.symm.trans hu
  cases hy.symm.trans hv
  refine ⟨hop, ?_⟩
  rw [htarget, Int.add_zero, ite_self]

end Brainfuck
