import Brainfuck.Proofs.Composition
import Brainfuck.Proofs.Correctness
import Mathlib.Data.List.Forall2
import Mathlib.Logic.Function.Iterate

/-!
# Wraparound in any context

Cells wrap around, so adding one any number of times and subtracting it as often is nothing, on
every value of a cell. What is nothing can be put into a source anywhere: within a loop, before a
bracket that is never closed, or between the bytes of a character.

## Main Definitions

* `SameOutcome` — two results that differ in the index of an instruction at most
* `Tree.Imitates` — a tree does whatever another one does
* `Tree.Inserted` — a tree into which primitives were put
* `Tree.Idle` — primitives that do nothing

## Main Results

* `Tree.Imitates.loop` — imitation within a loop
* `Tree.inserted_read` — the tree of a sequence into which primitives were put
* `Tree.Inserted.imitates` — primitives that do nothing may be put anywhere
* `Tree.idle_of_leftInverse` — a change of the current cell and the way back
* `wraparound_cancels` — the same for sources and their runs

## Design Notes

Putting something into a source moves every jump behind it. This is not followed through the code:
both codes do what the trees of their sources mean, and a tree knows no indices. The index of a
command only appears in errors, and it is all that the two runs may differ in.
-/

namespace Brainfuck

/-- Both results are successes, or both are the same failure, each at an instruction of its own. -/
inductive SameOutcome : Except RunError Unit → Except RunError Unit → Prop where
  | ok : SameOutcome (.ok ()) (.ok ())
  | error (f : Failure) (i j : Nat) : SameOutcome (.error (f.at i)) (.error (f.at j))

/-! ## Acceptance -/

/-- No beginning of a sequence goes below zero if none of the first part does, and the second part
does not go further down than the first one has come up. -/
theorem neverClosed_append_iff {xs ys : List Command} :
    NeverClosed (xs ++ ys) ↔
      NeverClosed xs ∧ ∀ front, front <+: ys → 0 ≤ depth xs + depth front := by
  constructor
  · intro h
    refine ⟨fun front hfront => h front (hfront.trans (List.prefix_append xs ys)), ?_⟩
    intro front hfront
    rw [← depth_append]
    exact h _ ((List.prefix_append_right_inj xs).mpr hfront)
  · rintro ⟨hxs, hys⟩ front hfront
    rcases prefix_append_cases hfront with hfront | ⟨tail, rfl, htail⟩
    · exact hxs front hfront
    · rw [depth_append]
      exact hys tail htail

/-- A balanced sequence may be put anywhere. -/
theorem Balanced.neverClosed_insert {mid : List Command} (h : Balanced mid) (xs ys : List Command) :
    NeverClosed (xs ++ (mid ++ ys)) ↔ NeverClosed (xs ++ ys) := by
  rw [neverClosed_append_iff, neverClosed_append_iff]
  refine and_congr_right fun hxs => ⟨?_, ?_⟩
  · intro hall front hfront
    have hdepth := hall (mid ++ front) ((List.prefix_append_right_inj mid).mpr hfront)
    rwa [depth_append, h.depth_eq_zero, Int.zero_add] at hdepth
  · intro hall front hfront
    rcases prefix_append_cases hfront with hfront | ⟨tail, rfl, htail⟩
    · have hfirst := hxs xs List.prefix_rfl
      have hsecond := h.neverClosed front hfront
      omega
    · rw [depth_append, h.depth_eq_zero, Int.zero_add]
      exact hall tail htail

theorem balanced_primitives (xs : List Primitive) : Balanced (xs.map Primitive.command) := by
  induction xs with
  | nil => exact .nil
  | cons a xs ih => exact .act a ih

namespace Tree

variable {ω : Type} {channel : Channel ω} {tree tree' body body' rest rest' : Tree} {k : Nat}
  {s t : Data ω} {r : Except RunError Unit} {xs : List Primitive}

/-! ## Imitation -/

/-- Whatever a tree does, another one does as well, from any index. -/
def Imitates (channel : Channel ω) (tree tree' : Tree) : Prop :=
  ∀ ⦃k s r t⦄, Executes channel k tree s r t →
    ∀ k', ∃ r', SameOutcome r r' ∧ Executes channel k' tree' s r' t

theorem Imitates.done : Imitates channel .done .done := by
  intro k s r t h k'
  cases h
  exact ⟨.ok (), .ok, .done⟩

theorem Imitates.act (a : Primitive) (h : Imitates channel rest rest') :
    Imitates channel (.act a rest) (.act a rest') := by
  intro k s r t hexec k'
  cases hexec with
  | act heffect hrest =>
      obtain ⟨r', hsame, hrest'⟩ := h hrest (k' + 1)
      exact ⟨r', hsame, .act heffect hrest'⟩
  | fail heffect => exact ⟨_, .error _ k k', .fail heffect⟩

/-- A loop imitates another one if its body does and what follows it does. -/
theorem Imitates.loop (hbody : Imitates channel body body') (hrest : Imitates channel rest rest') :
    Imitates channel (.loop body rest) (.loop body' rest') := by
  intro k s r t hexec k'
  generalize htree : Tree.loop body rest = tree at hexec
  -- the rounds of a loop are derivations for one tree, at one index
  induction hexec with
  | done => cases htree
  | act => cases htree
  | fail => cases htree
  | skip hzero hexec _ =>
      cases htree
      obtain ⟨r', hsame, hexec'⟩ := hrest hexec (k' + body'.commands.length + 2)
      exact ⟨r', hsame, .skip hzero hexec'⟩
  | again hcell hround _ _ ih =>
      cases htree
      obtain ⟨r', hsame, hround'⟩ := hbody hround (k' + 1)
      cases hsame
      obtain ⟨r'', hsame, hagain⟩ := ih rfl
      exact ⟨r'', hsame, .again hcell hround' hagain⟩
  | stop hcell hround _ =>
      cases htree
      obtain ⟨r', hsame, hround'⟩ := hbody hround (k' + 1)
      cases hsame with
      | error f i j => exact ⟨_, .error f i j, .stop hcell hround'⟩

theorem Imitates.refl (channel : Channel ω) (tree : Tree) : Imitates channel tree tree := by
  induction tree with
  | done => exact .done
  | act a _ ih => exact ih.act a
  | loop _ _ ihbody ihrest => exact ihbody.loop ihrest

/-! ## Insertion -/

/-- Primitives and a tree that follows them. -/
def prepend (xs : List Primitive) (tree : Tree) : Tree :=
  xs.foldr act tree

/-- A tree, and the same tree with the primitives `xs` put in at some places. -/
inductive Inserted (xs : List Primitive) : Tree → Tree → Prop where
  | done : Inserted xs .done .done
  | here (tree : Tree) : Inserted xs tree (prepend xs tree)
  | act (a : Primitive) {rest rest' : Tree} :
      Inserted xs rest rest' → Inserted xs (.act a rest) (.act a rest')
  | loop {body body' rest rest' : Tree} : Inserted xs body body' → Inserted xs rest rest' →
      Inserted xs (.loop body rest) (.loop body' rest')

theorem Inserted.refl (xs : List Primitive) (tree : Tree) : Inserted xs tree tree := by
  induction tree with
  | done => exact .done
  | act a _ ih => exact ih.act a
  | loop _ _ ihbody ihrest => exact ihbody.loop ihrest

theorem read_prepend (xs : List Primitive) (ops : List Command) :
    read (xs.map Primitive.command ++ ops) = (prepend xs (read ops).1, (read ops).2) := by
  induction xs with
  | nil => rfl
  | cons a xs ih =>
      rw [List.map_cons, List.cons_append, read_primitive, ih]
      rfl

/-- Primitives that are put into a sequence are put into its tree, or into what follows a loop
around it. -/
theorem inserted_read (front back : List Command) (xs : List Primitive) :
    Inserted xs (read (front ++ back)).1
        (read (front ++ (xs.map Primitive.command ++ back))).1 ∧
      List.Forall₂ (Inserted xs) (read (front ++ back)).2
        (read (front ++ (xs.map Primitive.command ++ back))).2 := by
  induction front with
  | nil =>
      rw [List.nil_append, List.nil_append, read_prepend]
      exact ⟨.here _, List.forall₂_same.mpr fun tree _ => .refl xs tree⟩
  | cons c front ih =>
      obtain ⟨hinner, houter⟩ := ih
      simp only [List.cons_append]
      rcases c.primitive_or_bracket with ⟨a, rfl⟩ | rfl | rfl
      · rw [read_primitive, read_primitive]
        exact ⟨hinner.act a, houter⟩
      · rw [read_loopStart, read_loopStart]
        generalize (read (front ++ back)).2 = outer,
          (read (front ++ (xs.map Primitive.command ++ back))).2 = outer' at houter ⊢
        cases houter with
        | nil => exact ⟨hinner.loop .done, .nil⟩
        | cons hrest houter => exact ⟨hinner.loop hrest, houter⟩
      · rw [read_loopEnd, read_loopEnd]
        exact ⟨.done, .cons hinner houter⟩

/-! ## Primitives that do nothing -/

/-- What follows these primitives is executed as if they were not there. -/
def Idle (channel : Channel ω) (xs : List Primitive) : Prop :=
  ∀ {k tree s r t}, Executes channel k (prepend xs tree) s r t ↔
    Executes channel (k + xs.length) tree s r t

/-- Primitives that do nothing may be put anywhere. -/
theorem Inserted.imitates (h : Inserted xs tree tree') (hidle : Idle channel xs) :
    Imitates channel tree tree' ∧ Imitates channel tree' tree := by
  induction h with
  | done => exact ⟨.done, .done⟩
  | here tree =>
      refine ⟨?_, ?_⟩
      · intro k s r t hexec k'
        obtain ⟨r', hsame, hexec'⟩ := Imitates.refl channel tree hexec (k' + xs.length)
        exact ⟨r', hsame, hidle.mpr hexec'⟩
      · intro k s r t hexec k'
        exact Imitates.refl channel tree (hidle.mp hexec) k'
  | act a _ ih => exact ⟨ih.1.act a, ih.2.act a⟩
  | loop _ _ ihbody ihrest => exact ⟨ihbody.1.loop ihrest.1, ihbody.2.loop ihrest.2⟩

end Tree

/-! ## Changes of the current cell -/

namespace Data

variable {ω : Type}

theorem update_update (s : Data ω) (f g : Int32 → Int32) :
    (s.update f).update g = s.update (g ∘ f) := by
  have htape : (s.tape.modify s.pointer f).modify s.pointer g =
      s.tape.modify s.pointer (g ∘ f) := by
    ext1
    · simp
    · next i hi hi' =>
        rw [Array.getElem_modify, Array.getElem_modify, Array.getElem_modify]
        split <;> rfl
  simp only [update, htape]

theorem update_id (s : Data ω) : s.update id = s := by
  have htape : s.tape.modify s.pointer id = s.tape := by
    ext1
    · simp
    · next i hi hi' =>
        rw [Array.getElem_modify]
        exact ite_self _
  simp only [update, htape]

end Data

namespace Tree

variable {ω : Type} {channel : Channel ω} {tree : Tree} {k : Nat} {s t : Data ω}
  {r : Except RunError Unit} {a b : Primitive} {f g : Int32 → Int32}

/-- A primitive that changes the current cell by `f`. -/
def Changes (channel : Channel ω) (a : Primitive) (f : Int32 → Int32) : Prop :=
  ∀ s, a.effect channel s = (.ok (), s.update f)

/-- A primitive that succeeds leaves the rest of a tree to be executed. -/
theorem executes_act_iff (ha : Changes channel a f) :
    Executes channel k (.act a tree) s r t ↔ Executes channel (k + 1) tree (s.update f) r t := by
  constructor
  · intro h
    cases h with
    | act heffect hrest =>
        cases (ha s).symm.trans heffect
        exact hrest
    | fail heffect => cases (ha s).symm.trans heffect
  · exact .act (ha s)

/-- A number of equal changes is one change. -/
theorem executes_replicate_iff (ha : Changes channel a f) (n : Nat) :
    Executes channel k (prepend (List.replicate n a) tree) s r t ↔
      Executes channel (k + n) tree (s.update f^[n]) r t := by
  induction n generalizing k s with
  | zero =>
      rw [Function.iterate_zero, Data.update_id]
      rfl
  | succ n ih =>
      have hunfold : prepend (List.replicate (n + 1) a) tree =
          .act a (prepend (List.replicate n a) tree) := rfl
      rw [hunfold, executes_act_iff ha, ih, Data.update_update, ← Function.iterate_succ,
        Nat.add_right_comm, Nat.add_assoc]

/-- A change of the current cell, any number of times, and the way back do nothing. -/
theorem idle_of_leftInverse (ha : Changes channel a f) (hb : Changes channel b g)
    (hinverse : Function.LeftInverse g f) (n : Nat) :
    Idle channel (List.replicate n a ++ List.replicate n b) := by
  intro k tree s r t
  have hback : g^[n] ∘ f^[n] = id := funext (hinverse.iterate n)
  have hsplit : prepend (List.replicate n a ++ List.replicate n b) tree =
      prepend (List.replicate n a) (prepend (List.replicate n b) tree) := List.foldr_append
  rw [hsplit, executes_replicate_iff ha, executes_replicate_iff hb, Data.update_update, hback,
    Data.update_id, List.length_append, List.length_replicate, List.length_replicate,
    Nat.add_assoc]

theorem changes_increment (channel : Channel ω) : Changes channel .increment (· + 1) :=
  fun _ => rfl

theorem changes_decrement (channel : Channel ω) : Changes channel .decrement (· - 1) :=
  fun _ => rfl

end Tree

/-! ## Sources -/

theorem filterMap_replicate_symbol (a : Primitive) (n : Nat) :
    (List.replicate n a.command.symbol).filterMap Command.ofByte? =
      (List.replicate n a).map Primitive.command := by
  rw [List.filterMap_replicate_of_some (Command.ofByte?_symbol a.command), List.map_replicate]

/-- The source of any number of increments and as many decrements, in either order, has commands
that do nothing. -/
theorem exists_idle_of_source {n : Nat} {x : Bytes}
    (hx : x = List.replicate n 0x2B ++ List.replicate n 0x2D ∨
      x = List.replicate n 0x2D ++ List.replicate n 0x2B) :
    ∃ xs : List Primitive, (commands x).map Prod.fst = xs.map Primitive.command ∧
      ∀ {ω : Type} (channel : Channel ω), Tree.Idle channel xs := by
  have hcommands (a b : Primitive) :
      (commands (List.replicate n a.command.symbol ++ List.replicate n b.command.symbol)).map
          Prod.fst = (List.replicate n a ++ List.replicate n b).map Primitive.command := by
    rw [map_fst_commands, List.filterMap_append, filterMap_replicate_symbol,
      filterMap_replicate_symbol, List.map_append]
  rcases hx with rfl | rfl
  · refine ⟨_, hcommands .increment .decrement, fun channel => ?_⟩
    exact Tree.idle_of_leftInverse (Tree.changes_increment channel)
      (Tree.changes_decrement channel) (fun c => Int32.add_sub_cancel c 1) n
  · refine ⟨_, hcommands .decrement .increment, fun channel => ?_⟩
    exact Tree.idle_of_leftInverse (Tree.changes_decrement channel)
      (Tree.changes_increment channel) (fun c => Int32.sub_add_cancel c 1) n

section Programs

variable {ω : Type} {channel : Channel ω} {settings settings' : CompileSettings}
  {source source' : Bytes} {disk₁ disk₁' disk₂ disk₂' : Disk} {p q : Program} {tape : Tape}
  {world : ω} {fuel : Nat} {r : Except RunError Unit} {m : Machine ω}

/-- A program does what another one does if the tree of its source imitates that of the other. -/
theorem Program.execute_of_imitates
    (hp : compile settings { bytes := source } disk₁ = (.ok p, disk₁'))
    (hq : compile settings' { bytes := source' } disk₂ = (.ok q, disk₂'))
    (himitates : Tree.Imitates channel (Tree.ofCommands ((commands source).map Prod.fst))
      (Tree.ofCommands ((commands source').map Prod.fst))) (htape : tape ≠ #[])
    (hrun : execute channel p.code fuel tape world = some (r, m)) :
    ∃ fuel' r' i, execute channel q.code fuel' tape world = some (r', m.data.machine i) ∧
      SameOutcome r r' := by
  have hmeans : Means channel source tape world r m.data :=
    (means_iff_execute hp htape).mpr ⟨fuel, m.counter, hrun⟩
  obtain ⟨r', hsame, hmeans'⟩ := himitates hmeans 0
  obtain ⟨fuel', i, hrun'⟩ := (means_iff_execute hq htape).mp hmeans'
  exact ⟨fuel', r', i, hrun', hsame⟩

end Programs

/-- **Wraparound cancels in any context.** Let `x` be any number of increments and as many
decrements, in either order. Put between two texts, it is accepted if and only if the two texts are
without it. The two programs then end or do not end together, on any tape with cells and any
streams. They leave the same tape, data pointer and streams and have the same outcome, but for the
index of the instruction that an error names. -/
theorem wraparound_cancels (a b : Bytes) (n : Nat) {x : Bytes}
    (hx : x = List.replicate n 0x2B ++ List.replicate n 0x2D ∨
      x = List.replicate n 0x2D ++ List.replicate n 0x2B) :
    (∀ strict disk,
      (∃ p, Program.compile { strict } { bytes := a ++ x ++ b } disk = (.ok p, disk)) ↔
        ∃ q, Program.compile { strict } { bytes := a ++ b } disk = (.ok q, disk)) ∧
    ∀ {settings settings' : CompileSettings} {disk₁ disk₁' disk₂ disk₂' : Disk} {p q : Program},
      Program.compile settings { bytes := a ++ x ++ b } disk₁ = (.ok p, disk₁') →
      Program.compile settings' { bytes := a ++ b } disk₂ = (.ok q, disk₂') →
      ∀ {ω : Type} (channel : Channel ω) {tape : Tape} (world : ω), tape ≠ #[] →
        ((∃ fuel r m, execute channel p.code fuel tape world = some (r, m)) ↔
          ∃ fuel r m, execute channel q.code fuel tape world = some (r, m)) ∧
        ∀ fuel r m fuel' r' m', execute channel p.code fuel tape world = some (r, m) →
          execute channel q.code fuel' tape world = some (r', m') →
            SameOutcome r r' ∧ m.tape = m'.tape ∧ m.pointer = m'.pointer ∧ m.world = m'.world := by
  obtain ⟨xs, hxs, hidle⟩ := exists_idle_of_source hx
  have hcommands : (commands (a ++ x ++ b)).map Prod.fst = (commands a).map Prod.fst ++
      (xs.map Primitive.command ++ (commands b).map Prod.fst) := by
    rw [map_fst_commands_append, map_fst_commands_append, hxs, List.append_assoc]
  have hbalanced := balanced_primitives xs
  refine ⟨?_, ?_⟩
  · intro strict disk
    rw [Program.exists_compile_iff, Program.exists_compile_iff, hcommands,
      map_fst_commands_append, hbalanced.neverClosed_insert, depth_append, depth_append,
      depth_append, hbalanced.depth_eq_zero, Int.zero_add]
  · intro settings settings' disk₁ disk₁' disk₂ disk₂' p q hp hq ω channel tape world htape
    obtain ⟨hthere, hback⟩ :=
      (Tree.inserted_read ((commands a).map Prod.fst) ((commands b).map Prod.fst) xs).1.imitates
        (hidle channel)
    rw [← hcommands, ← map_fst_commands_append] at hthere hback
    refine ⟨⟨?_, ?_⟩, ?_⟩
    · rintro ⟨fuel, r, m, hrun⟩
      obtain ⟨fuel', r', i, hrun', -⟩ := Program.execute_of_imitates hp hq hback htape hrun
      exact ⟨fuel', r', _, hrun'⟩
    · rintro ⟨fuel, r, m, hrun⟩
      obtain ⟨fuel', r', i, hrun', -⟩ := Program.execute_of_imitates hq hp hthere htape hrun
      exact ⟨fuel', r', _, hrun'⟩
    · intro fuel r m fuel' r' m' hrun hrun'
      obtain ⟨fuel'', r'', i, hrun'', hsame⟩ :=
        Program.execute_of_imitates hp hq hback htape hrun
      cases execute_unique hrun' hrun''
      exact ⟨hsame, rfl, rfl, rfl⟩

/-- More increments than a cell has values, and as many decrements, within a loop that is left open
and copies its input: both programs copy the byte and then fail for want of input. -/
theorem wraparound_cancels_beyond_range :
    ∃ (x : Bytes) (p q : Program) (m m' : Machine MemoryStreams) (fuel i : Nat),
      x = List.replicate 4294967297 0x2B ++ List.replicate 4294967297 0x2D ∧
      Program.compile {} { bytes := text "+[," ++ x ++ text "." } {} = (.ok p, {}) ∧
      Program.compile {} { bytes := text "+[," ++ text "." } {} = (.ok q, {}) ∧
      (#[0] : Tape) ≠ #[] ∧
      execute MemoryStreams.channel q.code 10 #[0] (.holding [5] 3) =
        some (.error (.input 2 .endOfInput), m') ∧
      execute MemoryStreams.channel p.code fuel #[0] (.holding [5] 3) =
        some (.error (.input i .endOfInput), m) ∧
      m.tape = #[5] ∧ m.world.reader.position = 1 ∧ m.world.writer.content = #[5] := by
  have hne : (#[0] : Tape) ≠ #[] := by simp
  obtain ⟨q, m', hq, hrun', htape, hposition, hcontent⟩ : ∃ q m',
      Program.compile {} { bytes := text "+[," ++ text "." } {} = (.ok q, {}) ∧
      execute MemoryStreams.channel q.code 10 #[0] (.holding [5] 3) =
        some (.error (.input 2 .endOfInput), m') ∧
      m'.tape = #[5] ∧ m'.world.reader.position = 1 ∧ m'.world.writer.content = #[5] :=
    ⟨_, _, rfl, rfl, rfl, rfl, rfl⟩
  obtain ⟨haccepts, hruns⟩ := wraparound_cancels (text "+[,") (text ".") 4294967297 (.inl rfl)
  obtain ⟨p, hp⟩ := (haccepts false {}).mpr ⟨q, hq⟩
  obtain ⟨hends, hsame⟩ := hruns hp hq MemoryStreams.channel (.holding [5] 3) hne
  obtain ⟨fuel, r, m, hrun⟩ := hends.mpr ⟨_, _, _, hrun'⟩
  obtain ⟨houtcome, htape', -, hworld⟩ := hsame _ _ _ _ _ _ hrun hrun'
  obtain ⟨i, rfl⟩ : ∃ i, r = .error (.input i .endOfInput) := by
    generalize hr' : (Except.error (.input 2 .endOfInput) : Except RunError Unit) = r' at houtcome
    cases houtcome with
    | ok => cases hr'
    | error f i j =>
        cases f with
        | input cause =>
            cases hr'
            exact ⟨i, rfl⟩
        | outOfRange pointer size => cases hr'
        | output cause => cases hr'
  exact ⟨_, p, q, m, m', fuel, i, rfl, hp, hq, hne, hrun', hrun, htape'.trans htape,
    hworld ▸ hposition, hworld ▸ hcontent⟩

end Brainfuck
