import Brainfuck.Machine
import Brainfuck.Proofs.Nesting
import Brainfuck.Source

/-!
# The meaning of structured programs

A tree means what its commands do one after the other, where a loop repeats its body while the
current cell is not zero. No code, no jump and no index of a next instruction is involved; that a
program does not end is the absence of a derivation.

## Main Definitions

* `Data` — the tape, the data pointer and the streams
* `Primitive.effect` — what a primitive does to them
* `Executes` — a tree runs to its end or to a failing command
* `Means` — the same for a source, from its first command

## Main Results

* `Primitive.effect_eq_error` — how a primitive can fail
* `Executes.unique` — a tree runs in one way
* `Executes.exists_failing` — an error names the index of the command that failed

## Design Notes

A tree is executed together with the index of its first command in the sequence that spells it.
The index does nothing but to appear in errors.
-/

namespace Brainfuck

/-- What a structured program acts on. -/
structure Data (ω : Type) where
  tape : Tape
  pointer : Nat
  /-- The streams. -/
  world : ω
  deriving DecidableEq, Repr

/-- Why a command failed. -/
inductive Failure where
  /-- The data pointer would leave a tape of `size` cells. -/
  | outOfRange (pointer : Int) (size : Nat)
  | output (cause : StreamError)
  | input (cause : StreamError)
  deriving DecidableEq, Repr

/-- The failure of the command at an index, as an error. -/
def Failure.at (index : Nat) : Failure → RunError
  | outOfRange pointer size => .outOfRange pointer size index
  | output cause => .output index cause
  | input cause => .input index cause

/-- The current cell. -/
def Data.cell {ω : Type} (s : Data ω) : Int32 :=
  s.tape.getD s.pointer 0

/-- Changes the current cell. -/
def Data.update {ω : Type} (s : Data ω) (f : Int32 → Int32) : Data ω :=
  { s with tape := s.tape.modify s.pointer f }

/-- What a primitive does. A cell is written as its remainder modulo 256. -/
def Primitive.effect {ω : Type} (channel : Channel ω) (s : Data ω) :
    Primitive → Except Failure Unit × Data ω
  | moveForward =>
    if s.pointer + 1 < s.tape.size then (.ok (), { s with pointer := s.pointer + 1 })
    else (.error (.outOfRange (s.pointer + 1) s.tape.size), s)
  | moveBackward =>
    if 0 < s.pointer then (.ok (), { s with pointer := s.pointer - 1 })
    else (.error (.outOfRange (-1) s.tape.size), s)
  | increment => (.ok (), s.update (· + 1))
  | decrement => (.ok (), s.update (· - 1))
  | output =>
    match channel.put (UInt8.ofInt s.cell.toInt) s.world with
    | (.ok (), world) => (.ok (), { s with world })
    | (.error e, world) => (.error (.output e), { s with world })
  | input =>
    match channel.get s.world with
    | (.ok b, world) => (.ok (), { s with world }.update fun _ => Int32.ofNat b.toNat)
    | (.error e, world) => (.error (.input e), { s with world })

/-- A primitive that fails leaves the tape as it is, and fails for want of a cell or with an error
of the streams. -/
theorem Primitive.effect_eq_error {ω : Type} {channel : Channel ω} {a : Primitive} {s t : Data ω}
    {f : Failure} (h : a.effect channel s = (.error f, t)) :
    t.tape = s.tape ∧
      ((∃ pointer, f = .outOfRange pointer s.tape.size) ∨
        (∃ b e, f = .output e ∧ channel.put b s.world = (.error e, t.world)) ∨
        ∃ e, f = .input e ∧ channel.get s.world = (.error e, t.world)) := by
  cases a with
  | moveForward =>
      simp only [effect] at h
      split at h
      · cases h
      · cases h
        exact ⟨rfl, .inl ⟨_, rfl⟩⟩
  | moveBackward =>
      simp only [effect] at h
      split at h
      · cases h
      · cases h
        exact ⟨rfl, .inl ⟨_, rfl⟩⟩
  | increment => cases h
  | decrement => cases h
  | output =>
      simp only [effect] at h
      split at h
      · cases h
      · next e world hput =>
          cases h
          exact ⟨rfl, .inr (.inl ⟨_, e, rfl, hput⟩)⟩
  | input =>
      simp only [effect] at h
      split at h
      · cases h
      · next e world hget =>
          cases h
          exact ⟨rfl, .inr (.inr ⟨e, rfl, hget⟩)⟩

/-- A tree, whose first command has the index `k`, runs from some data to its end or to a command
that fails, and leaves other data. -/
inductive Executes {ω : Type} (channel : Channel ω) :
    Nat → Tree → Data ω → Except RunError Unit → Data ω → Prop where
  | done {k : Nat} {s : Data ω} : Executes channel k .done s (.ok ()) s
  | act {k : Nat} {a : Primitive} {rest : Tree} {s s₁ t : Data ω} {r : Except RunError Unit} :
      a.effect channel s = (.ok (), s₁) → Executes channel (k + 1) rest s₁ r t →
        Executes channel k (.act a rest) s r t
  | fail {k : Nat} {a : Primitive} {rest : Tree} {s t : Data ω} {f : Failure} :
      a.effect channel s = (.error f, t) →
        Executes channel k (.act a rest) s (.error (f.at k)) t
  | skip {k : Nat} {body rest : Tree} {s t : Data ω} {r : Except RunError Unit} :
      s.cell = 0 → Executes channel (k + body.commands.length + 2) rest s r t →
        Executes channel k (.loop body rest) s r t
  | again {k : Nat} {body rest : Tree} {s s₁ t : Data ω} {r : Except RunError Unit} :
      s.cell ≠ 0 → Executes channel (k + 1) body s (.ok ()) s₁ →
        Executes channel k (.loop body rest) s₁ r t → Executes channel k (.loop body rest) s r t
  | stop {k : Nat} {body rest : Tree} {s t : Data ω} {e : RunError} :
      s.cell ≠ 0 → Executes channel (k + 1) body s (.error e) t →
        Executes channel k (.loop body rest) s (.error e) t

/-- What a source means: its commands are read as a tree, and this is executed with the data
pointer at the first cell. -/
def Means {ω : Type} (channel : Channel ω) (s : Bytes) (tape : Tape) (world : ω)
    (r : Except RunError Unit) (t : Data ω) : Prop :=
  Executes channel 0 (Tree.ofCommands ((commands s).map Prod.fst)) ⟨tape, 0, world⟩ r t

namespace Executes

variable {ω : Type} {channel : Channel ω} {k : Nat} {tree : Tree} {s t t' : Data ω}
  {r r' : Except RunError Unit}

/-- A tree runs in one way. -/
theorem unique (h : Executes channel k tree s r t) (h' : Executes channel k tree s r' t') :
    r = r' ∧ t = t' := by
  induction h generalizing r' t' with
  | done =>
      cases h'
      exact ⟨rfl, rfl⟩
  | act heffect _ ih =>
      cases h' with
      | act heffect' hrest' =>
          cases heffect.symm.trans heffect'
          exact ih hrest'
      | fail heffect' => cases heffect.symm.trans heffect'
  | fail heffect =>
      cases h' with
      | act heffect' _ => cases heffect.symm.trans heffect'
      | fail heffect' =>
          cases heffect.symm.trans heffect'
          exact ⟨rfl, rfl⟩
  | skip hzero _ ih =>
      cases h' with
      | skip _ hrest' => exact ih hrest'
      | again hcell _ _ => exact absurd hzero hcell
      | stop hcell _ => exact absurd hzero hcell
  | again hcell _ _ ihbody ihagain =>
      cases h' with
      | skip hzero _ => exact absurd hzero hcell
      | again _ hbody' hagain' =>
          obtain ⟨-, rfl⟩ := ihbody hbody'
          exact ihagain hagain'
      | stop _ hbody' => cases (ihbody hbody').1
  | stop hcell _ ihbody =>
      cases h' with
      | skip hzero _ => exact absurd hzero hcell
      | again _ hbody' _ => cases (ihbody hbody').1
      | stop _ hbody' => exact ihbody hbody'

/-- An error names the index of the command that failed, in the sequence that spells the tree. -/
theorem exists_failing {e : RunError} (h : Executes channel k tree s (.error e) t) :
    ∃ (n : Nat) (a : Primitive) (f : Failure) (u : Data ω),
      tree.commands[n]? = some a.command ∧ a.effect channel u = (.error f, t) ∧
        e = f.at (k + n) := by
  generalize hr : (Except.error e : Except RunError Unit) = r at h
  induction h with
  | done => cases hr
  | @act k a rest s s₁ t r _ _ ih =>
      obtain ⟨n, a', f, u, hn, heffect, rfl⟩ := ih hr
      refine ⟨n + 1, a', f, u, hn, heffect, ?_⟩
      rw [Nat.add_right_comm, Nat.add_assoc]
  | @fail k a rest s t f heffect =>
      cases hr
      exact ⟨0, a, f, s, rfl, heffect, rfl⟩
  | @skip k body rest s t r _ _ ih =>
      obtain ⟨n, a', f, u, hn, heffect, rfl⟩ := ih hr
      -- both brackets and the body stand before the rest
      refine ⟨body.commands.length + 2 + n, a', f, u, ?_, heffect, ?_⟩
      · have hlt : body.commands.length ≤ body.commands.length + (n + 1) := by omega
        rw [show body.commands.length + 2 + n = body.commands.length + (n + 1) + 1 by omega,
          Tree.commands, List.cons_append, List.getElem?_cons_succ,
          List.getElem?_append_right hlt, Nat.add_sub_cancel_left, List.getElem?_cons_succ]
        exact hn
      · congr 1
        omega
  | again _ _ _ _ ih => exact ih hr
  | @stop k body rest s t e _ _ ih =>
      cases hr
      obtain ⟨n, a', f, u, hn, heffect, rfl⟩ := ih rfl
      refine ⟨n + 1, a', f, u, ?_, heffect, ?_⟩
      · obtain ⟨hlt, -⟩ := List.getElem?_eq_some_iff.mp hn
        simpa [Tree.commands, List.getElem?_append_left hlt] using hn
      · congr 1
        omega

end Executes

end Brainfuck
