import Brainfuck.Command

/-!
# Nesting

The commands of a source are read as a tree: sequences of six primitive commands and of loops.
This module is about command sequences alone, before any code is generated for them.

## Main Definitions

* `Primitive`, `Command.role` — the commands that are no brackets, and what a command means for
  the nesting
* `depth` — how many brackets a sequence leaves open
* `Balanced` — the grammar of sequences in which every bracket has its partner
* `Tree` — a structured program
* `Tree.ofCommands` — the tree of a command sequence

## Design Notes

`Tree.read` goes over a sequence from its end. At every point it holds the tree of what is left of
the current loop and, for each loop around it, the tree of what follows that loop. A loop that the
sequence never closes meets the end with nothing to follow it, so it ends there.
-/

namespace Brainfuck

/-- The commands that are no brackets. -/
inductive Primitive where
  | moveForward
  | moveBackward
  | increment
  | decrement
  | output
  | input
  deriving DecidableEq, Repr

/-- A primitive as a command. -/
def Primitive.command : Primitive → Command
  | moveForward => .moveForward
  | moveBackward => .moveBackward
  | increment => .increment
  | decrement => .decrement
  | output => .output
  | input => .input

/-- What a command means for the nesting of a program. -/
inductive Role where
  | act (primitive : Primitive)
  | enter
  | leave
  deriving DecidableEq, Repr

/-- The role of a command. -/
def Command.role : Command → Role
  | moveForward => .act .moveForward
  | moveBackward => .act .moveBackward
  | increment => .act .increment
  | decrement => .act .decrement
  | output => .act .output
  | input => .act .input
  | loopStart => .enter
  | loopEnd => .leave

@[simp] theorem Command.role_loopStart : loopStart.role = .enter := rfl

@[simp] theorem Command.role_loopEnd : loopEnd.role = .leave := rfl

@[simp] theorem Primitive.role_command (a : Primitive) : a.command.role = .act a := by
  cases a <;> rfl

@[simp] theorem Primitive.command_ne_loopStart (a : Primitive) : a.command ≠ .loopStart := by
  cases a <;> simp [command]

@[simp] theorem Primitive.command_ne_loopEnd (a : Primitive) : a.command ≠ .loopEnd := by
  cases a <;> simp [command]

/-- Every command is a primitive or one of the two brackets. -/
theorem Command.primitive_or_bracket (c : Command) :
    (∃ a : Primitive, c = a.command) ∨ c = loopStart ∨ c = loopEnd := by
  cases c with
  | moveForward => exact .inl ⟨.moveForward, rfl⟩
  | moveBackward => exact .inl ⟨.moveBackward, rfl⟩
  | increment => exact .inl ⟨.increment, rfl⟩
  | decrement => exact .inl ⟨.decrement, rfl⟩
  | output => exact .inl ⟨.output, rfl⟩
  | input => exact .inl ⟨.input, rfl⟩
  | loopStart => exact .inr (.inl rfl)
  | loopEnd => exact .inr (.inr rfl)

/-! ## Depth -/

/-- How many more brackets a sequence opens than it closes. -/
def depth (ops : List Command) : Int :=
  (ops.count .loopStart : Int) - ops.count .loopEnd

@[simp] theorem depth_nil : depth [] = 0 := rfl

@[simp] theorem depth_append (xs ys : List Command) :
    depth (xs ++ ys) = depth xs + depth ys := by
  simp only [depth, List.count_append]
  omega

@[simp] theorem depth_primitive (a : Primitive) (ops : List Command) :
    depth (a.command :: ops) = depth ops := by
  simp [depth]

@[simp] theorem depth_loopStart (ops : List Command) :
    depth (.loopStart :: ops) = depth ops + 1 := by
  simp [depth]
  omega

@[simp] theorem depth_loopEnd (ops : List Command) :
    depth (.loopEnd :: ops) = depth ops - 1 := by
  simp [depth]
  omega

@[simp] theorem depth_closers (n : Nat) : depth (List.replicate n .loopEnd) = -n := by
  simp [depth, List.count_replicate]

/-- A sequence is overclosed if one of its beginnings has more closing than opening brackets. -/
def Overclosed (ops : List Command) : Prop :=
  ∃ front, front <+: ops ∧ front.count .loopStart < front.count .loopEnd

theorem overclosed_iff {ops : List Command} :
    Overclosed ops ↔ ∃ front, front <+: ops ∧ depth front < 0 := by
  refine exists_congr fun front => and_congr_right fun _ => ?_
  simp only [depth]
  omega

/-- A bracket opened just before `ops` is never closed in it: no beginning goes below the depth
at which it starts. -/
def NeverClosed (ops : List Command) : Prop :=
  ∀ front, front <+: ops → 0 ≤ depth front

theorem not_overclosed_iff {ops : List Command} : ¬ Overclosed ops ↔ NeverClosed ops := by
  rw [overclosed_iff]
  constructor
  · intro h front hfront
    exact Int.not_lt.mp fun hlt => h ⟨front, hfront, hlt⟩
  · rintro h ⟨front, hfront, hlt⟩
    have := h front hfront
    omega

/-- A beginning of `xs ++ ys` ends in `xs` or in `ys`. -/
theorem prefix_append_cases {α : Type} {front xs ys : List α} (h : front <+: xs ++ ys) :
    front <+: xs ∨ ∃ tail, front = xs ++ tail ∧ tail <+: ys := by
  rcases List.prefix_or_prefix_of_prefix h (List.prefix_append xs ys) with hfront | ⟨tail, rfl⟩
  · exact .inl hfront
  · exact .inr ⟨tail, rfl, (List.prefix_append_right_inj xs).mp h⟩

/-! ## Balanced sequences -/

/-- Sequences in which every bracket has its partner. -/
inductive Balanced : List Command → Prop where
  | nil : Balanced []
  | act (a : Primitive) {ops : List Command} : Balanced ops → Balanced (a.command :: ops)
  | loop {body rest : List Command} :
      Balanced body → Balanced rest → Balanced (.loopStart :: body ++ .loopEnd :: rest)

namespace Balanced

theorem append {xs ys : List Command} (hx : Balanced xs) (hy : Balanced ys) :
    Balanced (xs ++ ys) := by
  induction hx with
  | nil => exact hy
  | act a _ ih => exact .act a ih
  | loop hbody _ _ ih =>
      simp only [List.append_assoc, List.cons_append]
      exact .loop hbody ih

theorem depth_eq_zero {ops : List Command} (h : Balanced ops) : depth ops = 0 := by
  induction h with
  | nil => rfl
  | act a _ ih => simpa using ih
  | loop _ _ ihbody ihrest =>
      rw [List.cons_append, depth_loopStart, depth_append, depth_loopEnd, ihbody, ihrest]
      omega

/-- A balanced sequence closes nothing that was opened before it. -/
theorem neverClosed {ops : List Command} (h : Balanced ops) : NeverClosed ops := by
  induction h with
  | nil =>
      intro front hfront
      simp [List.prefix_nil.mp hfront]
  | act a _ ih =>
      intro front hfront
      cases front with
      | nil => simp
      | cons c front =>
          obtain ⟨rfl, htail⟩ := List.cons_prefix_cons.mp hfront
          rw [depth_primitive]
          exact ih front htail
  | loop hbody _ ihbody ihrest =>
      intro front hfront
      cases front with
      | nil => simp
      | cons c front =>
          obtain ⟨rfl, hinner⟩ := List.cons_prefix_cons.mp hfront
          rw [depth_loopStart]
          rcases prefix_append_cases hinner with hbegin | ⟨tail, rfl, htail⟩
          · have := ihbody front hbegin
            omega
          · cases tail with
            | nil => simp [hbody.depth_eq_zero]
            | cons c tail =>
                obtain ⟨rfl, hend⟩ := List.cons_prefix_cons.mp htail
                have := ihrest tail hend
                rw [depth_append, hbody.depth_eq_zero, depth_loopEnd]
                omega

end Balanced

/-! ## Trees -/

/-- A structured program. -/
inductive Tree where
  | done
  /-- A primitive command and what follows it. -/
  | act (primitive : Primitive) (rest : Tree)
  /-- A loop and what follows it. -/
  | loop (body rest : Tree)
  deriving DecidableEq, Repr

namespace Tree

/-- The commands that spell a tree. -/
def commands : Tree → List Command
  | done => []
  | act a rest => a.command :: rest.commands
  | loop body rest => .loopStart :: body.commands ++ .loopEnd :: rest.commands

/-- Reads a sequence: the tree up to the end of the current loop, and the trees that follow the
loops around it, innermost first. -/
def read : List Command → Tree × List Tree
  | [] => (done, [])
  | c :: ops =>
    let (tree, outer) := read ops
    match c.role with
    | .act a => (act a tree, outer)
    | .enter => (loop tree (outer.headD done), outer.tail)
    | .leave => (done, tree :: outer)

/-- The tree of a command sequence. Loops that are still open are closed at its end. -/
def ofCommands (ops : List Command) : Tree :=
  (read ops).1

@[simp] theorem read_nil : read [] = (done, []) := rfl

@[simp] theorem read_primitive (a : Primitive) (ops : List Command) :
    read (a.command :: ops) = (act a (read ops).1, (read ops).2) := by
  simp [read]

@[simp] theorem read_loopStart (ops : List Command) :
    read (.loopStart :: ops) =
      (loop (read ops).1 ((read ops).2.headD done), (read ops).2.tail) := rfl

@[simp] theorem read_loopEnd (ops : List Command) :
    read (.loopEnd :: ops) = (done, (read ops).1 :: (read ops).2) := rfl

theorem balanced_commands (tree : Tree) : Balanced tree.commands := by
  induction tree with
  | done => exact .nil
  | act a _ ih => exact .act a ih
  | loop _ _ ihbody ihrest => exact .loop ihbody ihrest

theorem read_replicate_loopEnd (n : Nat) :
    read (List.replicate n .loopEnd) = (done, List.replicate n done) := by
  induction n with
  | zero => rfl
  | succ n ih => rw [List.replicate_succ, read_loopEnd, ih, List.replicate_succ]

/-- Closing brackets at the end change nothing but what follows the loops around. -/
theorem read_append_closers (ops : List Command) (n : Nat) :
    ∃ m, read (ops ++ List.replicate n .loopEnd) =
      ((read ops).1, (read ops).2 ++ List.replicate m done) := by
  induction ops with
  | nil => exact ⟨n, by rw [List.nil_append, read_replicate_loopEnd]; rfl⟩
  | cons c ops ih =>
      obtain ⟨m, ih⟩ := ih
      rw [List.cons_append]
      rcases c.primitive_or_bracket with ⟨a, rfl⟩ | rfl | rfl
      · exact ⟨m, by rw [read_primitive, ih, read_primitive]⟩
      · rw [read_loopStart, ih, read_loopStart]
        cases houter : (read ops).2 with
        | nil => exact ⟨m - 1, by cases m <;> simp [List.replicate_succ]⟩
        | cons tree outer => exact ⟨m, rfl⟩
      · exact ⟨m, by rw [read_loopEnd, ih, read_loopEnd]; rfl⟩

/-- Loops that are still open at the end are read as if they were closed there. -/
theorem ofCommands_append_closers (ops : List Command) (n : Nat) :
    ofCommands (ops ++ List.replicate n .loopEnd) = ofCommands ops := by
  obtain ⟨m, h⟩ := read_append_closers ops n
  rw [ofCommands, h, ofCommands]

end Tree

end Brainfuck
