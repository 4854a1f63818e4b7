import Brainfuck.Proofs.Closing
import Brainfuck.Proofs.Dialogue
import Brainfuck.Proofs.Listing
import Brainfuck.Proofs.Positions

/-!
# Bracket depth

The prompt counts brackets to see whether a text is complete; a compilation matches them. The two
agree: the count is the number of loops that a compilation has to close itself, and a count below
zero is an error. So what the prompt takes for a complete text compiles alike with strict brackets
and without them.

## Main Definitions

* `Rune.nest` — the effect of a rune on the count
* `implicitExits` — the exits of some code that stand for no bracket of its source

## Main Results

* `foldl_nest` — counting rune by rune
* `depth_commands` — the count and the depth of the commands
* `Program.implicitExits_of_compile`, `Program.compile_of_depth_neg`,
  `Program.compile_strict_of_depth_le` — what the count tells about a compilation
* `bracketDepth_matches_compile` — all of this, and what the prompt makes of it
-/

namespace Brainfuck

/-! ## Counting rune by rune -/

theorem bracketDepth_append (s t : Bytes) :
    bracketDepth (s ++ t) = bracketDepth s + bracketDepth t := by
  simp only [bracketDepth, List.count_append]
  omega

namespace Rune

/-- The count of open brackets after a rune. -/
def nest (depth : Int) (r : Rune) : Int :=
  if r.code = some 0x5B then depth + 1 else if r.code = some 0x5D then depth - 1 else depth

/-- The bytes of a sequence are no ASCII bytes. -/
theorem Sequence.not_ascii {s : Bytes} (h : Sequence s) : ∀ x ∈ s, 0x80 ≤ x.toNat := by
  cases h with
  | two hb hc =>
      rw [isSecond_iff] at hc
      simp only [List.forall_mem_cons]
      exact ⟨by omega, by omega, by simp⟩
  | three hb hc hd =>
      rw [isSecond_iff] at hc
      rw [isTail_iff] at hd
      simp only [List.forall_mem_cons]
      exact ⟨by omega, by omega, by omega, by simp⟩
  | four hb hc hd he =>
      rw [isSecond_iff] at hc
      rw [isTail_iff] at hd he
      simp only [List.forall_mem_cons]
      exact ⟨by omega, by omega, by omega, by omega, by simp⟩

/-- The code point of a sequence is not that of an ASCII byte. -/
theorem Sequence.exists_code {s : Bytes} (h : Sequence s) : ∃ n, codeOf s = some n ∧ 0x80 ≤ n := by
  cases h with
  | two hb hc => exact ⟨_, rfl, by omega⟩
  | three hb hc hd =>
      rw [isSecond_iff] at hc
      exact ⟨_, rfl, by omega⟩
  | four hb hc hd he =>
      rw [isSecond_iff] at hc
      exact ⟨_, rfl, by omega⟩

theorem nest_of_ne {depth : Int} {r : Rune} (hopening : r.code ≠ some 0x5B)
    (hclosing : r.code ≠ some 0x5D) : nest depth r = depth := by
  rw [nest, if_neg hopening, if_neg hclosing]

/-- A rune changes the count by the brackets among its bytes. -/
theorem nest_ofHead (depth : Int) (b : UInt8) (rest : Bytes) :
    nest depth (ofHead b rest) = depth + bracketDepth (ofHead b rest).bytes := by
  rw [ofHead]
  rcases width_cases b rest with hone | hsequence
  · rw [hone, Nat.sub_self, List.take_zero]
    by_cases hopening : b = 0x5B
    · subst hopening
      rfl
    by_cases hclosing : b = 0x5D
    · subst hclosing
      rfl
    have hcode {x : UInt8} (hx : b ≠ x) : codeOf [b] ≠ some x.toNat := by
      rw [codeOf]
      split
      · simpa [UInt8.toNat_inj] using hx
      · simp
    have hdepth : bracketDepth [b] = 0 := by simp [bracketDepth, hopening, hclosing]
    rw [nest_of_ne (hcode hopening) (hcode hclosing), hdepth, Int.add_zero]
  · generalize b :: rest.take (width b rest - 1) = s at hsequence
    obtain ⟨n, hcode, hn⟩ := hsequence.exists_code
    have hne {k : Nat} (hk : k < 0x80) : codeOf s ≠ some k := by
      rw [hcode, Option.some_inj.ne]
      omega
    have hmem {x : UInt8} (hx : x.toNat < 0x80) : x ∉ s :=
      fun h => Nat.not_le.mpr hx (hsequence.not_ascii x h)
    have hdepth : bracketDepth s = 0 := by
      rw [bracketDepth, List.count_eq_zero.mpr (hmem (by decide)),
        List.count_eq_zero.mpr (hmem (by decide))]
      rfl
    rw [nest_of_ne (hne (by decide)) (hne (by decide)), hdepth, Int.add_zero]

end Rune

/-- Counting rune by rune is counting byte by byte. -/
theorem foldl_nest (depth : Int) (t : Bytes) :
    (runes t).foldl Rune.nest depth = depth + bracketDepth t := by
  induction hn : t.length using Nat.strongRecOn generalizing t depth with
  | ind n ih =>
      cases t with
      | nil => exact (Int.add_zero depth).symm
      | cons b rest =>
          have hbytes : b :: rest =
              (Rune.ofHead b rest).bytes ++ rest.drop (Rune.width b rest - 1) := by
            simp [Rune.ofHead]
          have hlength : (rest.drop (Rune.width b rest - 1)).length < n := by
            rw [List.length_drop, ← hn, List.length_cons]
            omega
          rw [runes_cons, List.foldl_cons, Rune.nest_ofHead, ih _ hlength _ _ rfl]
          conv_rhs => rw [hbytes, bracketDepth_append]
          omega

/-! ## Counting and matching -/

/-- The count is the depth of the commands. -/
theorem depth_commands (s : Bytes) : depth ((commands s).map Prod.fst) = bracketDepth s :=
  depth_commands_eq_count s

/-- How many exits of some code stand for no bracket of its source. -/
def implicitExits (code : Code) : Nat :=
  code.toList.countP fun x => x.op == some .loopEnd && x.position == Position.implicit

theorem implicitExits_eq_count (code : Code) :
    implicitExits code = (Draft.listed code).count (some .loopEnd, Position.implicit) := by
  rw [Draft.listed, Array.toList_map, List.count, List.countP_map]
  rfl

namespace Program

variable {settings : CompileSettings} {s : Bytes} {disk disk' : Disk} {p : Program}

/-- A compilation closes as many loops itself as the count says. -/
theorem implicitExits_of_compile (h : compile settings { bytes := s } disk = (.ok p, disk')) :
    (implicitExits p.code : Int) = bracketDepth s := by
  obtain ⟨n, hn⟩ := Int.eq_ofNat_of_zero_le (depth_nonneg_of_compile h)
  rw [implicitExits_eq_count, listed_of_compile h hn, List.count_append,
    List.count_eq_zero_of_not_mem ?_, List.count_replicate_self, Nat.zero_add, ← depth_commands, hn]
  -- a bracket of the source has a position
  intro hmem
  obtain ⟨⟨c, q⟩, hx, heq⟩ := List.mem_map.mp hmem
  obtain ⟨-, rfl⟩ := Prod.mk.inj heq
  have hknown : Position.implicit.isKnown = true := isKnown_of_mem_commands hx
  exact absurd hknown (by decide)

/-- With a count below zero there is a closing bracket that closes nothing. -/
theorem compile_of_depth_neg (settings : CompileSettings) (disk : Disk) (h : bracketDepth s < 0) :
    ∃ q, FirstUnmatched (commands s) q ∧
      compile settings { bytes := s } disk = (.error (.brackets (.unmatched q)), disk) := by
  rw [← depth_commands] at h
  cases hrun : Draft.empty.run settings.trace.isSome (commands s) with
  | ok d =>
      have hdepth := Draft.neverClosed_of_run hrun _ (List.prefix_refl _)
      exact absurd h (Int.not_lt.mpr hdepth)
  | error e =>
      obtain ⟨q, rfl, hq⟩ := Draft.firstUnmatched_of_run hrun
      refine ⟨q, hq, compile_eq_error ?_⟩
      rw [← recorder_isSome] at hrun
      rw [← recorder_describing]
      exact @Builder.run_eq_unmatched _ { bytes := s } settings.strict _ hrun

end Program

/-- If no loop is left open, strict brackets make no difference to a compilation. -/
theorem Builder.run_strict_of_nil {trace : Option Recorder} {source : Feed} {d : Draft}
    (hrun : Draft.empty.run trace.isSome (commands source.bytes) = .ok d) (hnil : d.guards = []) :
    run true (trace.map (·.describing #[])) source =
      run false (trace.map (·.describing #[])) source := by
  obtain ⟨b, h, heq⟩ := run_eq trace source
  obtain ⟨b', hb', h'⟩ := h.foldlM hrun
  have hstack : b'.stack = [] := by
    simpa [hnil] using h'.chain.stack_length
  have hclose : b'.closeAll true = b'.closeAll false := by
    rw [closeAll, closeAll, hstack]
    rfl
  rw [heq, heq, hb']
  simp only [Except.bind, hclose]

namespace Program

/-- With a count of zero or less, strict brackets make no difference. -/
theorem compile_strict_of_depth_le {source : Feed} (trace : Option TraceSettings) (disk : Disk)
    (h : bracketDepth source.bytes ≤ 0) :
    compile { strict := true, trace } source disk =
      compile { strict := false, trace } source disk := by
  have hbuilder : Builder.run true (recorder { trace }) source =
      Builder.run false (recorder { trace }) source := by
    rw [← recorder_describing]
    cases hrun : Draft.empty.run (recorder { trace }).isSome (commands source.bytes) with
    | error e => rw [Builder.run_eq_unmatched true hrun, Builder.run_eq_unmatched false hrun]
    | ok d =>
        have hnil : d.guards = [] := by
          have hlength := Draft.run_guards_length hrun
          rw [depth_commands] at hlength
          simp only [Draft.empty, List.length_nil] at hlength
          exact List.eq_nil_of_length_eq_zero (by omega)
        exact Builder.run_strict_of_nil hrun hnil
  rw [recorder] at hbuilder
  simp only [compile, hbuilder]

end Program

/-! ## The prompt -/

/-- What the prompt takes for a complete text, before the end of its script, has no bracket open. -/
theorem Prompt.depth_le_of_source {h : Heard} {source : Bytes}
    (hmeaning : h.meaning = .source source) (hlast : h.last = false) : bracketDepth source ≤ 0 := by
  rw [Heard.meaning, hlast, classify] at hmeaning
  split at hmeaning
  · cases hmeaning
  · dsimp only at hmeaning
    split at hmeaning
    · cases hmeaning
    · next hdepth =>
        cases hmeaning
        simpa using hdepth

/-- A session closes no loop of a text that has no bracket open. -/
theorem Session.implicitExits_of_compile {s : Session} {source : Bytes} {p : Program}
    (h : (s.compile source).1 = .ok p) (hdepth : bracketDepth source ≤ 0) :
    implicitExits p.code = 0 := by
  have hcompile := (s.program_compile source).symm
  rw [h] at hcompile
  have hexits := Program.implicitExits_of_compile hcompile
  omega

/-- **Counting brackets agrees with matching them.** The count of a text, taken rune by rune, is the
number of opening brackets less that of the closing ones. If the text compiles, by whatever
settings, this is the number of loops that the compilation has closed itself. If it is below zero,
the text does not compile, because of a closing bracket that closes nothing. If it is zero or less,
the result of a compilation is the same with strict brackets and without them. So the prompt, which
runs a text before the end of its script only with such a count, never has a loop closed for it
there. -/
theorem bracketDepth_matches_compile (s : Bytes) (disk : Disk) :
    (runes s).foldl Rune.nest 0 = bracketDepth s ∧
    (∀ settings p disk', Program.compile settings { bytes := s } disk = (.ok p, disk') →
      (implicitExits p.code : Int) = bracketDepth s) ∧
    (bracketDepth s < 0 → ∀ settings, ∃ q, FirstUnmatched (commands s) q ∧
      Program.compile settings { bytes := s } disk =
        (.error (.brackets (.unmatched q)), disk)) ∧
    (bracketDepth s ≤ 0 → ∀ trace,
      Program.compile { strict := true, trace } { bytes := s } disk =
        Program.compile { strict := false, trace } { bytes := s } disk) ∧
    ∀ (session : Session) (fuel : Nat) (interactive : Bool) (script : Option Feed),
      (Prompt.dialogue session fuel interactive script).2 =
          Prompt.run session fuel interactive script ∧
        ∀ h ∈ (Prompt.dialogue session fuel interactive script).1, h.last = false →
          ∀ source, h.meaning = .source source → bracketDepth source ≤ 0 ∧
            ∀ p, (h.stage.session.compile source).1 = .ok p → implicitExits p.code = 0 := by
  refine ⟨?_, fun settings p disk' => Program.implicitExits_of_compile,
    fun hneg settings => Program.compile_of_depth_neg settings disk hneg,
    fun hle trace => Program.compile_strict_of_depth_le trace disk hle, ?_⟩
  · rw [foldl_nest, Int.zero_add]
  · intro session fuel interactive script
    refine ⟨Prompt.dialogue_snd session fuel interactive script, ?_⟩
    intro h _ hlast source hmeaning
    have hle := Prompt.depth_le_of_source hmeaning hlast
    exact ⟨hle, fun p hp => Session.implicitExits_of_compile hp hle⟩

example (strict : Bool) :
    bracketDepth (text "][") = 0 ∧
      (Program.compile { strict } { bytes := text "][" } {}).1 =
        .error (.brackets (.unmatched ⟨1, 1⟩)) := by
  cases strict <;> decide

end Brainfuck
