import Brainfuck.Program
import Brainfuck.Proofs.Nesting
import Mathlib.Data.List.Induction

/-!
# Drafts

A draft is half-built code: the instructions so far and the guards whose loops are still open. It
says what a compilation does to the code without the blocks that it keeps for this purpose.

## Main Definitions

* `Draft` — code with its open guards
* `Draft.accept` — the effect of one command
* `Draft.run` — the effect of a command sequence
* `Draft.Nested` — the invariant on open guards

## Main Results

* `Draft.run_listed` — a run appends one instruction for each command
* `Draft.run_guards_length` — the open guards are as many as the depth
* `Draft.run_pending` — from an open guard to the next, and to the end, everything is balanced
* `Draft.run_getElem?` — an instruction that is no open guard never changes again

## Design Notes

Guards get their targets only when their loops close. Every other instruction is final once it is
emitted; this is why the layout of finished code can be read off its parts one at a time.
-/

namespace Brainfuck

/-- The guard of an open loop: its index in the code and the position of its bracket. -/
structure Guard where
  start : Nat
  opened : Position
  deriving DecidableEq, Repr

/-- Half-built code. -/
structure Draft where
  code : Code
  /-- The guards of the open loops, innermost first. -/
  guards : List Guard
  deriving DecidableEq, Repr

namespace Draft

/-- The draft before the first command. -/
def empty : Draft :=
  ⟨#[], []⟩

/-- The instruction for a command. If the code is traced, it knows the line of its trace. -/
def instruction (traced : Bool) (d : Draft) (c : Command) (p : Position) : Instruction :=
  { op := some c, position := p, line := if traced then (d.code.size + 1 : Nat) else 0 }

/-- Adds the instruction of a primitive. -/
def put (traced : Bool) (d : Draft) (c : Command) (p : Position) : Draft :=
  { d with code := d.code.push (d.instruction traced c p) }

/-- Opens a loop: its guard has no target yet. -/
def enter (traced : Bool) (d : Draft) (p : Position) : Draft :=
  { code := d.code.push (d.instruction traced .loopStart p),
    guards := ⟨d.code.size, p⟩ :: d.guards }

/-- Closes the loop of a guard, inside the guards `outer`. -/
def leave (traced : Bool) (d : Draft) (p : Position) (g : Guard) (outer : List Guard) : Draft :=
  let exit := { d.instruction traced .loopEnd p with target := g.start }
  let target : Int := (d.code.push exit).size
  { code := (d.code.push exit).modify g.start fun guard => { guard with target },
    guards := outer }

/-- Takes the next command. -/
def accept (traced : Bool) (d : Draft) (c : Command) (p : Position) : Except BracketError Draft :=
  match c.role, d.guards with
  | .act _, _ => .ok (d.put traced c p)
  | .enter, _ => .ok (d.enter traced p)
  | .leave, [] => .error (.unmatched p)
  | .leave, g :: outer => .ok (d.leave traced p g outer)

/-- Takes a command sequence. -/
def run (traced : Bool) : Draft → List (Command × Position) → Except BracketError Draft
  | d, [] => .ok d
  | d, (c, p) :: cs =>
    match d.accept traced c p with
    | .ok d => run traced d cs
    | .error e => .error e

/-! ## One command -/

theorem accept_primitive (traced : Bool) (d : Draft) (a : Primitive) (p : Position) :
    d.accept traced a.command p = .ok (d.put traced a.command p) := by
  simp [accept]

theorem accept_loopStart (traced : Bool) (d : Draft) (p : Position) :
    d.accept traced .loopStart p = .ok (d.enter traced p) := rfl

theorem accept_loopEnd_nil (traced : Bool) {d : Draft} (p : Position) (h : d.guards = []) :
    d.accept traced .loopEnd p = .error (.unmatched p) := by
  simp [accept, h]

theorem accept_loopEnd_cons (traced : Bool) {d : Draft} (p : Position) {g : Guard}
    {outer : List Guard} (h : d.guards = g :: outer) :
    d.accept traced .loopEnd p = .ok (d.leave traced p g outer) := by
  simp [accept, h]

/-- What a command can do to a draft. -/
theorem accept_cases {traced : Bool} {d d' : Draft} {c : Command} {p : Position}
    (h : d.accept traced c p = .ok d') :
    (∃ a : Primitive, c = a.command ∧ d' = d.put traced c p) ∨
      (c = .loopStart ∧ d' = d.enter traced p) ∨
      (∃ g outer, c = .loopEnd ∧ d.guards = g :: outer ∧ d' = d.leave traced p g outer) := by
  rcases c.primitive_or_bracket with ⟨a, rfl⟩ | rfl | rfl
  · rw [accept_primitive] at h
    exact .inl ⟨a, rfl, (Except.ok.inj h).symm⟩
  · rw [accept_loopStart] at h
    exact .inr (.inl ⟨rfl, (Except.ok.inj h).symm⟩)
  · cases hguards : d.guards with
    | nil =>
        rw [accept_loopEnd_nil traced p hguards] at h
        cases h
    | cons g outer =>
        rw [accept_loopEnd_cons traced p hguards] at h
        exact .inr (.inr ⟨g, outer, rfl, rfl, (Except.ok.inj h).symm⟩)

/-- Only a closing bracket outside all loops is refused. -/
theorem accept_eq_error {traced : Bool} {d : Draft} {c : Command} {p : Position}
    {e : BracketError} (h : d.accept traced c p = .error e) :
    c = .loopEnd ∧ d.guards = [] ∧ e = .unmatched p := by
  rcases c.primitive_or_bracket with ⟨a, rfl⟩ | rfl | rfl
  · rw [accept_primitive] at h
    cases h
  · rw [accept_loopStart] at h
    cases h
  · cases hguards : d.guards with
    | nil =>
        rw [accept_loopEnd_nil traced p hguards] at h
        exact ⟨rfl, rfl, (Except.error.inj h).symm⟩
    | cons g outer =>
        rw [accept_loopEnd_cons traced p hguards] at h
        cases h

@[simp] theorem put_guards (traced : Bool) (d : Draft) (c : Command) (p : Position) :
    (d.put traced c p).guards = d.guards := rfl

@[simp] theorem enter_guards (traced : Bool) (d : Draft) (p : Position) :
    (d.enter traced p).guards = ⟨d.code.size, p⟩ :: d.guards := rfl

@[simp] theorem leave_guards (traced : Bool) (d : Draft) (p : Position) (g : Guard)
    (outer : List Guard) : (d.leave traced p g outer).guards = outer := rfl

theorem accept_size {traced : Bool} {d d' : Draft} {c : Command} {p : Position}
    (h : d.accept traced c p = .ok d') : d'.code.size = d.code.size + 1 := by
  rcases accept_cases h with ⟨a, -, rfl⟩ | ⟨-, rfl⟩ | ⟨g, outer, -, -, rfl⟩ <;>
    simp [put, enter, leave]

/-! ## Runs -/

theorem run_cons_of_ok {traced : Bool} {d d' : Draft} {c : Command} {p : Position}
    (h : d.accept traced c p = .ok d') (cs : List (Command × Position)) :
    d.run traced ((c, p) :: cs) = d'.run traced cs := by
  rw [run, h]

theorem run_cons_eq_ok {traced : Bool} {d d' : Draft} {c : Command} {p : Position}
    {cs : List (Command × Position)} (h : d.run traced ((c, p) :: cs) = .ok d') :
    ∃ d₁, d.accept traced c p = .ok d₁ ∧ d₁.run traced cs = .ok d' := by
  rw [run] at h
  cases haccept : d.accept traced c p with
  | ok d₁ => exact ⟨d₁, rfl, by simpa only [haccept] using h⟩
  | error e => simp [haccept] at h

theorem run_append_of_ok {traced : Bool} {d d' : Draft} {xs : List (Command × Position)}
    (h : d.run traced xs = .ok d') (ys : List (Command × Position)) :
    d.run traced (xs ++ ys) = d'.run traced ys := by
  induction xs generalizing d with
  | nil => rw [List.nil_append, Except.ok.inj h]
  | cons x xs ih =>
      obtain ⟨d₁, haccept, hrun⟩ := run_cons_eq_ok h
      rw [List.cons_append, run_cons_of_ok haccept, ih hrun]

theorem run_append_eq_ok {traced : Bool} {d d' : Draft} {xs ys : List (Command × Position)}
    (h : d.run traced (xs ++ ys) = .ok d') :
    ∃ d₁, d.run traced xs = .ok d₁ ∧ d₁.run traced ys = .ok d' := by
  induction xs generalizing d with
  | nil => exact ⟨d, rfl, h⟩
  | cons x xs ih =>
      obtain ⟨d₁, haccept, hrun⟩ := run_cons_eq_ok h
      obtain ⟨d₂, hxs, hys⟩ := ih hrun
      exact ⟨d₂, by rw [run_cons_of_ok haccept, hxs], hys⟩

/-- A run takes one command after all others. -/
theorem run_concat_eq_ok {traced : Bool} {d d' : Draft} {cs : List (Command × Position)}
    {c : Command} {p : Position} (h : d.run traced (cs ++ [(c, p)]) = .ok d') :
    ∃ d₁, d.run traced cs = .ok d₁ ∧ d₁.accept traced c p = .ok d' := by
  obtain ⟨d₁, hcs, hlast⟩ := run_append_eq_ok h
  obtain ⟨d₂, haccept, hnil⟩ := run_cons_eq_ok hlast
  cases hnil
  exact ⟨d₁, hcs, haccept⟩

/-- A refused sequence is refused at a closing bracket that finds no open guard. -/
theorem exists_unmatched_of_run_eq_error {traced : Bool} {d : Draft}
    {cs : List (Command × Position)} {e : BracketError} (h : d.run traced cs = .error e) :
    ∃ front p back d₁, cs = front ++ (.loopEnd, p) :: back ∧ d.run traced front = .ok d₁ ∧
      d₁.guards = [] ∧ e = .unmatched p := by
  induction cs generalizing d with
  | nil => cases h
  | cons x cs ih =>
      obtain ⟨c, p⟩ := x
      cases haccept : d.accept traced c p with
      | ok d₁ =>
          rw [run_cons_of_ok haccept] at h
          obtain ⟨front, q, back, d₂, rfl, hfront, hguards, he⟩ := ih h
          exact ⟨(c, p) :: front, q, back, d₂, rfl, by rw [run_cons_of_ok haccept, hfront],
            hguards, he⟩
      | error e' =>
          obtain ⟨rfl, hguards, rfl⟩ := accept_eq_error haccept
          rw [run, haccept] at h
          exact ⟨[], p, cs, d, rfl, rfl, hguards, (Except.error.inj h).symm⟩

/-! ## What is listed -/

/-- What does not show targets does not see a guard that gets its target. -/
theorem map_modify_target {α : Type} {view : Instruction → α} {t : Int}
    (hview : ∀ x : Instruction, view { x with target := t } = view x) (code : Code) (k : Nat) :
    (code.modify k fun guard => { guard with target := t }).map view = code.map view := by
  apply Array.ext (by simp)
  intro i hi _
  simp only [Array.getElem_map, Array.getElem_modify]
  split
  · exact hview _
  · rfl

/-- The operations of some code with their positions. -/
def listed (code : Code) : List (Option Command × Position) :=
  (code.map fun x => (x.op, x.position)).toList

@[simp] theorem listed_length (code : Code) : (listed code).length = code.size := by
  simp [listed]

@[simp] theorem listed_getElem? (code : Code) (k : Nat) :
    (listed code)[k]? = code[k]?.map fun x => (x.op, x.position) := by
  simp [listed]

theorem accept_listed {traced : Bool} {d d' : Draft} {c : Command} {p : Position}
    (h : d.accept traced c p = .ok d') :
    listed d'.code = listed d.code ++ [(some c, p)] := by
  rcases accept_cases h with ⟨a, -, rfl⟩ | ⟨rfl, rfl⟩ | ⟨g, outer, rfl, -, rfl⟩
  · simp [listed, put, instruction]
  · simp [listed, enter, instruction]
  · rw [listed, leave, map_modify_target fun _ => rfl]
    simp [listed, instruction]

/-- A run appends one instruction for each command, in order and with its position. -/
theorem run_listed {traced : Bool} {d d' : Draft} {cs : List (Command × Position)}
    (h : d.run traced cs = .ok d') :
    listed d'.code = listed d.code ++ cs.map fun (c, p) => (some c, p) := by
  induction cs generalizing d with
  | nil =>
      cases h
      simp
  | cons x cs ih =>
      obtain ⟨d₁, haccept, hrun⟩ := run_cons_eq_ok h
      rw [ih hrun, accept_listed haccept, List.append_assoc]
      rfl

theorem run_size {traced : Bool} {d d' : Draft} {cs : List (Command × Position)}
    (h : d.run traced cs = .ok d') : d'.code.size = d.code.size + cs.length := by
  simpa using congrArg List.length (run_listed h)

/-- The lines of a trace are counted from one; without a trace they are zero. -/
def Lined (traced : Bool) (code : Code) : Prop :=
  code.map Instruction.line =
    (Array.range code.size).map fun k : Nat => if traced then (k : Int) + 1 else 0

theorem Lined.line_eq {traced : Bool} {code : Code} (h : Lined traced code) {k : Nat}
    {x : Instruction} (hx : code[k]? = some x) :
    x.line = if traced then (k : Int) + 1 else 0 := by
  obtain ⟨hk, rfl⟩ := Array.getElem?_eq_some_iff.mp hx
  have hline := congrArg (·[k]?) h
  simpa [hk] using hline

theorem lined_empty (traced : Bool) : Lined traced empty.code := by
  simp [Lined, empty]

theorem accept_lined {traced : Bool} {d d' : Draft} {c : Command} {p : Position}
    (hd : Lined traced d.code) (h : d.accept traced c p = .ok d') : Lined traced d'.code := by
  rw [Lined] at hd
  -- all three kinds of commands append one instruction, and patching leaves lines alone
  have hpush (x : Instruction) (hx : x.line = if traced then (d.code.size : Int) + 1 else 0) :
      Lined traced (d.code.push x) := by
    rw [Lined, Array.map_push, hd, Array.size_push, Array.range_succ, hx]
    simp
  rcases accept_cases h with ⟨a, -, rfl⟩ | ⟨-, rfl⟩ | ⟨g, outer, -, -, rfl⟩
  · exact hpush _ (by simp [instruction])
  · exact hpush _ (by simp [instruction])
  · rw [Lined, leave, map_modify_target fun _ => rfl, Array.size_modify]
    exact hpush _ (by simp [instruction])

/-- Every instruction of a run knows its line. -/
theorem run_lined {traced : Bool} {d d' : Draft} {cs : List (Command × Position)}
    (hd : Lined traced d.code) (h : d.run traced cs = .ok d') : Lined traced d'.code := by
  induction cs generalizing d with
  | nil =>
      cases h
      exact hd
  | cons x cs ih =>
      obtain ⟨d₁, haccept, hrun⟩ := run_cons_eq_ok h
      exact ih (accept_lined hd haccept) hrun

/-! ## Open guards and depth -/

theorem accept_guards_length {traced : Bool} {d d' : Draft} {c : Command} {p : Position}
    (h : d.accept traced c p = .ok d') :
    (d'.guards.length : Int) = d.guards.length + depth [c] := by
  rcases accept_cases h with ⟨a, rfl, rfl⟩ | ⟨rfl, rfl⟩ | ⟨g, outer, rfl, hguards, rfl⟩
  · simp
  · simp
  · rw [depth_loopEnd, leave_guards, hguards, List.length_cons, depth_nil]
    omega

/-- The open guards are as many as the depth of the commands. -/
theorem run_guards_length {traced : Bool} {d d' : Draft} {cs : List (Command × Position)}
    (h : d.run traced cs = .ok d') :
    (d'.guards.length : Int) = d.guards.length + depth (cs.map Prod.fst) := by
  induction cs generalizing d with
  | nil =>
      cases h
      simp
  | cons x cs ih =>
      obtain ⟨d₁, haccept, hrun⟩ := run_cons_eq_ok h
      have hhead := accept_guards_length haccept
      have htail := ih hrun
      rw [List.map_cons, ← List.singleton_append, depth_append]
      omega

/-! ## What is pending -/

/-- A command sequence that leaves the loops of some guards open, innermost first: what follows a
guard up to the next one, or up to the end, is balanced. -/
inductive Pending : List (Command × Position) → List Guard → Prop where
  | none {cs : List (Command × Position)} : Balanced (cs.map Prod.fst) → Pending cs []
  | more {front back : List (Command × Position)} {g : Guard} {outer : List Guard} :
      Pending front outer → g.start = front.length → Balanced (back.map Prod.fst) →
        Pending (front ++ (.loopStart, g.opened) :: back) (g :: outer)

theorem Pending.append {cs more : List (Command × Position)} {guards : List Guard}
    (h : Pending cs guards) (hmore : Balanced (more.map Prod.fst)) :
    Pending (cs ++ more) guards := by
  cases h with
  | none hcs =>
      refine .none ?_
      rw [List.map_append]
      exact hcs.append hmore
  | more hfront hstart hback =>
      rw [List.append_assoc, List.cons_append]
      refine .more hfront hstart ?_
      rw [List.map_append]
      exact hback.append hmore

theorem accept_pending {traced : Bool} {d d' : Draft} {cs : List (Command × Position)}
    {c : Command} {p : Position} (hsize : d.code.size = cs.length) (hd : Pending cs d.guards)
    (h : d.accept traced c p = .ok d') : Pending (cs ++ [(c, p)]) d'.guards := by
  rcases accept_cases h with ⟨a, rfl, rfl⟩ | ⟨rfl, rfl⟩ | ⟨g, outer, rfl, hguards, rfl⟩
  · exact hd.append (.act a .nil)
  · exact @Pending.more cs [] ⟨d.code.size, p⟩ d.guards hd hsize .nil
  · rw [hguards] at hd
    cases hd with
    | @more front back _ _ hfront _ hback =>
        -- the loop that closes here is balanced, so it extends what was pending around it
        rw [leave_guards, List.append_assoc, List.cons_append]
        refine hfront.append ?_
        simpa using Balanced.loop hback .nil

/-- A run leaves open exactly the guards that its commands leave pending. -/
theorem run_pending {traced : Bool} {d : Draft} {cs : List (Command × Position)}
    (h : empty.run traced cs = .ok d) : Pending cs d.guards := by
  -- `Pending` grows at its end, so the last command is taken off and not the first
  induction cs using List.reverseRecOn generalizing d with
  | nil =>
      cases h
      exact .none .nil
  | append_singleton cs x ih =>
      obtain ⟨d₁, hcs, haccept⟩ := run_concat_eq_ok h
      refine accept_pending ?_ (ih hcs) haccept
      simpa [empty] using run_size hcs

/-! ## Nested guards -/

/-- The open guards stand in the code, inner ones after outer ones. -/
def Nested (d : Draft) : Prop :=
  (d.code.size :: d.guards.map Guard.start).Pairwise (· > ·)

theorem nested_empty : empty.Nested := by
  simp [Nested, empty]

theorem Nested.start_lt {d : Draft} (h : d.Nested) {g : Guard} (hg : g ∈ d.guards) :
    g.start < d.code.size :=
  List.rel_of_pairwise_cons h (List.mem_map_of_mem hg)

/-- A guard stands behind all guards around it. -/
theorem Nested.start_lt_start {d : Draft} (h : d.Nested) {g g' : Guard} {outer : List Guard}
    (hguards : d.guards = g :: outer) (hg : g' ∈ outer) : g'.start < g.start := by
  rw [Nested, hguards, List.map_cons] at h
  exact List.rel_of_pairwise_cons h.of_cons (List.mem_map_of_mem hg)

theorem accept_nested {traced : Bool} {d d' : Draft} {c : Command} {p : Position}
    (hd : d.Nested) (h : d.accept traced c p = .ok d') : d'.Nested := by
  rw [Nested, accept_size h, List.pairwise_cons]
  have hbound : ∀ k ∈ d.guards.map Guard.start, k < d.code.size :=
    fun _ hk => List.rel_of_pairwise_cons hd hk
  rcases accept_cases h with ⟨a, -, rfl⟩ | ⟨-, rfl⟩ | ⟨g, outer, -, hguards, rfl⟩
  · refine ⟨fun k hk => ?_, hd.of_cons⟩
    have := hbound k hk
    omega
  · refine ⟨fun k hk => ?_, hd⟩
    rcases List.mem_cons.mp hk with rfl | hk
    · exact Nat.lt_succ_self d.code.size
    · have := hbound k hk
      omega
  · rw [Nested, hguards] at hd
    refine ⟨fun k hk => ?_, hd.of_cons.of_cons⟩
    have := hbound k (by rw [hguards]; exact List.mem_cons_of_mem _ hk)
    omega

/-! ## What stays -/

/-- A command changes no instruction but the guard that it closes. -/
theorem accept_getElem? {traced : Bool} {d d' : Draft} {c : Command} {p : Position} {k : Nat}
    (h : d.accept traced c p = .ok d') (hk : k < d.code.size)
    (hopen : ∀ g ∈ d.guards, g.start ≠ k) : d'.code[k]? = d.code[k]? := by
  rcases accept_cases h with ⟨a, -, rfl⟩ | ⟨-, rfl⟩ | ⟨g, outer, -, hguards, rfl⟩
  · rw [put, Array.getElem?_push_lt hk, Array.getElem?_eq_getElem hk]
  · rw [enter, Array.getElem?_push_lt hk, Array.getElem?_eq_getElem hk]
  · have hne : g.start ≠ k := hopen g (by simp [hguards])
    rw [leave, Array.getElem?_modify, if_neg hne, Array.getElem?_push_lt hk,
      Array.getElem?_eq_getElem hk]

/-- An instruction that is no open guard never changes again. -/
theorem run_getElem? {traced : Bool} {d d' : Draft} {cs : List (Command × Position)} {k : Nat}
    (h : d.run traced cs = .ok d') (hk : k < d.code.size)
    (hopen : ∀ g ∈ d.guards, g.start ≠ k) : d'.code[k]? = d.code[k]? := by
  induction cs generalizing d with
  | nil =>
      cases h
      rfl
  | cons x cs ih =>
      obtain ⟨d₁, haccept, hrun⟩ := run_cons_eq_ok h
      rw [ih hrun (by rw [accept_size haccept]; omega) ?_, accept_getElem? haccept hk hopen]
      -- a guard opened now stands at the end of the code, so it is not at `k` either
      intro g hg
      rcases accept_cases haccept with ⟨a, -, rfl⟩ | ⟨-, rfl⟩ | ⟨g', outer, -, hguards, rfl⟩
      · exact hopen g hg
      · rcases List.mem_cons.mp hg with rfl | hg
        · exact Nat.ne_of_gt hk
        · exact hopen g hg
      · exact hopen g (by rw [hguards]; exact List.mem_cons_of_mem _ hg)

end Draft

end Brainfuck
