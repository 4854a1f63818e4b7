import Brainfuck.Proofs.Compilation
import Brainfuck.Proofs.Positions

/-!
# Bracket errors

Which sources compile, and which bracket is named when one does not. The conditions speak of the
commands of the source and their running depth only, which come to counts of brackets among the
bytes; where the bracket stands is told by the bytes before it.

## Main Definitions

* `FirstUnmatched` — the first closing bracket that closes nothing
* `LastUnclosed` — the last opening bracket that is never closed

## Main Results

* `Draft.exists_run_iff` — a sequence is taken if and only if it is not overclosed
* `overclosed_commands_iff`, `depth_commands_eq_count` — the conditions as counts of bytes
* `FirstUnmatched.exists_cut`, `LastUnclosed.exists_cut` — the bytes around the bracket
* `compile_accepts_exactly` — when a compilation fails, and with which error
-/

namespace Brainfuck

/-- The position of the first closing bracket at which the running depth would go below zero. -/
def FirstUnmatched (cs : List (Command × Position)) (p : Position) : Prop :=
  ∃ front back, cs = front ++ (.loopEnd, p) :: back ∧ NeverClosed (front.map Prod.fst) ∧
    depth ((front ++ [(.loopEnd, p)]).map Prod.fst) < 0

/-- The position of the last opening bracket that is never closed. -/
def LastUnclosed (cs : List (Command × Position)) (p : Position) : Prop :=
  ∃ front back, cs = front ++ (.loopStart, p) :: back ∧ NeverClosed (back.map Prod.fst) ∧
    ∀ mid q rest, back = mid ++ (.loopStart, q) :: rest → ¬ NeverClosed (rest.map Prod.fst)

/-! ## Drafts -/

namespace Draft

variable {traced : Bool} {cs : List (Command × Position)}

/-- What a run takes is nowhere overclosed. -/
theorem neverClosed_of_run {d : Draft} (h : empty.run traced cs = .ok d) :
    NeverClosed (cs.map Prod.fst) := by
  rintro front ⟨back, hsplit⟩
  obtain ⟨xs, ys, rfl, rfl, -⟩ := List.map_eq_append_iff.mp hsplit.symm
  obtain ⟨d₁, hxs, -⟩ := run_append_eq_ok h
  have hlength := run_guards_length hxs
  simp only [empty, List.length_nil] at hlength
  omega

/-- What a run refuses goes below zero first at the bracket that the error names. -/
theorem firstUnmatched_of_run {e : BracketError} (h : empty.run traced cs = .error e) :
    ∃ p, e = .unmatched p ∧ FirstUnmatched cs p := by
  obtain ⟨front, p, back, d, rfl, hfront, hguards, rfl⟩ := exists_unmatched_of_run_eq_error h
  refine ⟨p, rfl, front, back, rfl, neverClosed_of_run hfront, ?_⟩
  have hlength := run_guards_length hfront
  simp only [hguards, empty, List.length_nil] at hlength
  simp only [List.map_append, List.map_cons, List.map_nil, depth_append, depth_loopEnd, depth_nil]
  omega

theorem overclosed_of_firstUnmatched {p : Position} (h : FirstUnmatched cs p) :
    Overclosed (cs.map Prod.fst) := by
  obtain ⟨front, back, rfl, -, hdepth⟩ := h
  refine overclosed_iff.mpr ⟨_, List.IsPrefix.map Prod.fst ?_, hdepth⟩
  exact ⟨back, by simp⟩

/-- A sequence is taken if and only if it is not overclosed. -/
theorem exists_run_iff (traced : Bool) (cs : List (Command × Position)) :
    (∃ d, empty.run traced cs = .ok d) ↔ ¬ Overclosed (cs.map Prod.fst) := by
  constructor
  · rintro ⟨d, h⟩
    exact not_overclosed_iff.mpr (neverClosed_of_run h)
  · intro h
    cases hrun : empty.run traced cs with
    | ok d => exact ⟨d, rfl⟩
    | error e =>
        obtain ⟨p, -, hp⟩ := firstUnmatched_of_run hrun
        exact absurd (overclosed_of_firstUnmatched hp) h

/-- The innermost open guard belongs to the last bracket that is never closed. -/
theorem lastUnclosed_of_pending {g : Guard} {outer : List Guard} (h : Pending cs (g :: outer)) :
    LastUnclosed cs g.opened := by
  cases h with
  | @more front back _ _ _ _ hback =>
      refine ⟨front, back, rfl, hback.neverClosed, ?_⟩
      -- a later bracket that is never closed would leave the depth above that of a balanced end
      rintro mid q rest rfl hrest
      have hmid := hback.neverClosed (mid.map Prod.fst) (by simp)
      have hend := hrest (rest.map Prod.fst) (List.prefix_refl _)
      have hzero := hback.depth_eq_zero
      rw [List.map_append, depth_append, List.map_cons, depth_loopStart] at hzero
      omega

/-- The depth of a sequence that is taken says whether a guard is left open. -/
theorem depth_pos_iff {d : Draft} (h : empty.run traced cs = .ok d) :
    0 < depth (cs.map Prod.fst) ↔ d.guards ≠ [] := by
  have hlength := run_guards_length h
  simp only [empty, List.length_nil] at hlength
  rw [← List.length_pos_iff]
  omega

end Draft

/-! ## Programs -/

/-- The position of a command as text. -/
theorem Position.toText_of_commands_eq {s : Bytes} {c : Command} {p : Position}
    {front back : List (Command × Position)} (h : commands s = front ++ (c, p) :: back) :
    p.toText = signed p.line ++ 0x3A :: signed p.column := by
  have hmem : (c, p) ∈ commands s := by
    rw [h]
    simp
  rw [toText, if_pos (isKnown_of_mem_commands hmem)]

/-- A source is overclosed if some beginning of its bytes closes more than it opens. -/
theorem overclosed_commands_iff {s : Bytes} :
    Overclosed ((commands s).map Prod.fst) ↔ ∃ t, t <+: s ∧ t.count 0x5B < t.count 0x5D := by
  constructor
  · rintro ⟨front, hfront, hlt⟩
    rw [map_fst_commands] at hfront
    obtain ⟨t, ht, rfl⟩ := List.prefix_filterMap_iff.mp hfront
    rw [← map_fst_commands, count_commands, count_commands] at hlt
    exact ⟨t, ht, hlt⟩
  · rintro ⟨t, ⟨u, rfl⟩, hlt⟩
    rw [map_fst_commands_append]
    refine ⟨(commands t).map Prod.fst, List.prefix_append _ _, ?_⟩
    rw [count_commands, count_commands]
    exact hlt

theorem neverClosed_commands_iff {s : Bytes} :
    NeverClosed ((commands s).map Prod.fst) ↔ ∀ t, t <+: s → t.count 0x5D ≤ t.count 0x5B := by
  rw [← not_overclosed_iff, overclosed_commands_iff]
  simp only [not_exists, not_and, Nat.not_lt]

/-- The depth of a source is a count of its bytes. -/
theorem depth_commands_eq_count (s : Bytes) :
    depth ((commands s).map Prod.fst) = (s.count 0x5B : Int) - s.count 0x5D := by
  rw [depth, count_commands, count_commands]
  rfl

/-- The bytes before the first bracket that closes nothing are nowhere overclosed, and they close
all that they open. -/
theorem FirstUnmatched.exists_cut {s : Bytes} {p : Position} (h : FirstUnmatched (commands s) p) :
    ∃ before after, s = before ++ 0x5D :: after ∧ p = Position.behind before ∧
      (∀ t, t <+: before → t.count 0x5D ≤ t.count 0x5B) ∧
      before.count 0x5B = before.count 0x5D := by
  obtain ⟨front, back, hsplit, hnever, hdepth⟩ := h
  obtain ⟨before, after, hs, hp, rfl, -⟩ := exists_cut_of_commands hsplit
  have hbytes := neverClosed_commands_iff.mp hnever
  refine ⟨before, after, hs, hp, hbytes, ?_⟩
  have hle := hbytes before (List.prefix_refl _)
  simp only [List.map_append, List.map_cons, List.map_nil, depth_append, depth_loopEnd, depth_nil,
    depth_commands_eq_count] at hdepth
  omega

/-- The bytes after the last bracket that is never closed are nowhere overclosed, those after
a later opening bracket are. -/
theorem LastUnclosed.exists_cut {s : Bytes} {p : Position} (h : LastUnclosed (commands s) p) :
    ∃ before after, s = before ++ 0x5B :: after ∧ p = Position.behind before ∧
      (∀ t, t <+: after → t.count 0x5D ≤ t.count 0x5B) ∧
      ∀ mid rest, after = mid ++ 0x5B :: rest →
        ∃ t, t <+: rest ∧ t.count 0x5B < t.count 0x5D := by
  obtain ⟨front, back, hsplit, hnever, hlast⟩ := h
  obtain ⟨before, after, rfl, rfl, rfl, hback⟩ := exists_cut_of_commands hsplit
  rw [hback] at hnever
  refine ⟨before, after, rfl, rfl, neverClosed_commands_iff.mp hnever, ?_⟩
  rintro mid rest rfl
  -- the later bracket is a command of what follows
  obtain ⟨middle, hmiddle, -⟩ := commands_symbol before .loopStart mid
  obtain ⟨tail, htail, hrest⟩ :=
    commands_symbol (before ++ Command.loopStart.symbol :: mid) .loopStart rest
  rw [List.append_assoc, List.cons_append, hmiddle, List.append_assoc, List.cons_append] at htail
  have hcut := (List.cons.inj (List.append_cancel_left (hsplit.symm.trans htail))).2
  have hopen := hlast _ _ _ hcut
  rw [hrest, ← not_overclosed_iff] at hopen
  exact overclosed_commands_iff.mp (Classical.not_not.mp hopen)

/-- The message of an unmatched bracket names its line and column. -/
theorem FirstUnmatched.message {s : Bytes} {p : Position} (h : FirstUnmatched (commands s) p) :
    (CompileError.brackets (.unmatched p)).message =
      text "syntax error at " ++ (signed p.line ++ 0x3A :: signed p.column) ++
        text ": unmatched ']'" := by
  obtain ⟨front, back, hsplit, -⟩ := h
  rw [← Position.toText_of_commands_eq hsplit]
  rfl

/-- The message of an unclosed bracket names its line and column. -/
theorem LastUnclosed.message {s : Bytes} {p : Position} (h : LastUnclosed (commands s) p) :
    (CompileError.brackets (.unclosed p)).message =
      text "syntax error at " ++ (signed p.line ++ 0x3A :: signed p.column) ++
        text ": unclosed '['" := by
  obtain ⟨front, back, hsplit, -⟩ := h
  rw [← Position.toText_of_commands_eq hsplit]
  rfl

/-- The three ways in which a compilation can end, by the brackets of the source. -/
theorem Program.compile_cases (s : Bytes) (disk : Disk) :
    (∃ p, FirstUnmatched (commands s) p ∧
      ∀ strict, compile { strict } { bytes := s } disk =
        (.error (.brackets (.unmatched p)), disk)) ∨
    (¬ Overclosed ((commands s).map Prod.fst) ∧ 0 < depth ((commands s).map Prod.fst) ∧
      (∃ program, compile { strict := false } { bytes := s } disk = (.ok program, disk)) ∧
      ∃ p, LastUnclosed (commands s) p ∧
        compile { strict := true } { bytes := s } disk =
          (.error (.brackets (.unclosed p)), disk)) ∨
    (¬ Overclosed ((commands s).map Prod.fst) ∧ depth ((commands s).map Prod.fst) = 0 ∧
      ∃ program, ∀ strict, compile { strict } { bytes := s } disk = (.ok program, disk)) := by
  cases hrun : Draft.empty.run false (commands s) with
  | error e =>
      obtain ⟨p, rfl, hp⟩ := Draft.firstUnmatched_of_run hrun
      exact .inl ⟨p, hp, fun strict => compile_eq_unmatched hrun⟩
  | ok d =>
      have hover := (Draft.exists_run_iff false (commands s)).mp ⟨d, hrun⟩
      cases hguards : d.guards with
      | cons g outer =>
          have hpos := (Draft.depth_pos_iff hrun).mpr (by simp [hguards])
          obtain ⟨d', -, -, hok⟩ := @compile_eq_ok false { bytes := s } disk d hrun rfl (by simp)
          refine .inr (.inl ⟨hover, hpos, ⟨_, hok⟩, g.opened, ?_, ?_⟩)
          · exact Draft.lastUnclosed_of_pending (hguards ▸ Draft.run_pending hrun)
          · exact compile_eq_unclosed hrun rfl hguards
      | nil =>
          have hlength := Draft.run_guards_length hrun
          simp only [hguards, Draft.empty, List.length_nil] at hlength
          obtain ⟨d', hclosed, -, -⟩ :=
            @compile_eq_ok false { bytes := s } disk d hrun rfl (fun _ => hguards)
          refine .inr (.inr ⟨hover, by omega, { code := d'.code }, fun strict => ?_⟩)
          obtain ⟨d'', hclosed', -, hok⟩ :=
            @compile_eq_ok strict { bytes := s } disk d hrun rfl (fun _ => hguards)
          rw [hclosed] at hclosed'
          cases hclosed'
          exact hok

/-- **Which sources compile.** Without strict brackets a compilation fails if and only if some
beginning of the commands has more closing than opening brackets, and it names the first closing
bracket at which this happens. With strict brackets it also fails if the final depth is positive,
and then it names the last opening bracket that is never closed. Either bracket is named by the line
and the column behind the bytes before it. The disk is left alone. -/
theorem compile_accepts_exactly (s : Bytes) (disk : Disk) :
    ∃ permissive strict,
      Program.compile { strict := false } { bytes := s } disk = (permissive, disk) ∧
      Program.compile { strict := true } { bytes := s } disk = (strict, disk) ∧
      (Overclosed ((commands s).map Prod.fst) ↔ ∃ t, t <+: s ∧ t.count 0x5B < t.count 0x5D) ∧
      depth ((commands s).map Prod.fst) = (s.count 0x5B : Int) - s.count 0x5D ∧
      ((∃ e, permissive = .error e) ↔ Overclosed ((commands s).map Prod.fst)) ∧
      ((∃ program, permissive = .ok program) ↔ ¬ Overclosed ((commands s).map Prod.fst)) ∧
      (∀ e, permissive = .error e →
        ∃ p, FirstUnmatched (commands s) p ∧
          (∃ before after, s = before ++ 0x5D :: after ∧ p = Position.behind before ∧
            (∀ t, t <+: before → t.count 0x5D ≤ t.count 0x5B) ∧
            before.count 0x5B = before.count 0x5D) ∧
          e = .brackets (.unmatched p) ∧
          e.message = text "syntax error at " ++ (signed p.line ++ 0x3A :: signed p.column) ++
            text ": unmatched ']'") ∧
      ((∃ e, strict = .error e) ↔
        Overclosed ((commands s).map Prod.fst) ∨ 0 < depth ((commands s).map Prod.fst)) ∧
      ((∃ program, strict = .ok program) ↔
        ¬ Overclosed ((commands s).map Prod.fst) ∧ depth ((commands s).map Prod.fst) = 0) ∧
      (Overclosed ((commands s).map Prod.fst) → strict = permissive) ∧
      (¬ Overclosed ((commands s).map Prod.fst) → ∀ e, strict = .error e →
        ∃ p, LastUnclosed (commands s) p ∧
          (∃ before after, s = before ++ 0x5B :: after ∧ p = Position.behind before ∧
            (∀ t, t <+: after → t.count 0x5D ≤ t.count 0x5B) ∧
            ∀ mid rest, after = mid ++ 0x5B :: rest →
              ∃ t, t <+: rest ∧ t.count 0x5B < t.count 0x5D) ∧
          e = .brackets (.unclosed p) ∧
          e.message = text "syntax error at " ++ (signed p.line ++ 0x3A :: signed p.column) ++
            text ": unclosed '['") := by
  rcases Program.compile_cases s disk with ⟨p, hp, hall⟩ |
    ⟨hover, hpos, ⟨program, hok⟩, p, hp, herror⟩ | ⟨hover, hzero, program, hall⟩
  · have hover := Draft.overclosed_of_firstUnmatched hp
    refine ⟨_, _, hall false, hall true, overclosed_commands_iff, depth_commands_eq_count s,
      ?_, ?_, ?_, ?_, ?_, ?_, ?_⟩
    · simp [hover]
    · simp [hover]
    · rintro e ⟨⟩
      exact ⟨p, hp, hp.exists_cut, rfl, hp.message⟩
    · simp [hover]
    · simp [hover]
    · exact fun _ => rfl
    · exact fun h => absurd hover h
  · refine ⟨_, _, hok, herror, overclosed_commands_iff, depth_commands_eq_count s,
      ?_, ?_, ?_, ?_, ?_, ?_, ?_⟩
    · simp [hover]
    · simp [hover]
    · simp
    · simp [hpos]
    · simp [Int.ne_of_gt hpos]
    · exact fun h => absurd h hover
    · rintro - e ⟨⟩
      exact ⟨p, hp, hp.exists_cut, rfl, hp.message⟩
  · refine ⟨_, _, hall false, hall true, overclosed_commands_iff, depth_commands_eq_count s,
      ?_, ?_, ?_, ?_, ?_, ?_, ?_⟩
    · simp [hover]
    · simp [hover]
    · simp
    · simp [hover, hzero]
    · simp [hover, hzero]
    · exact fun _ => rfl
    · simp

end Brainfuck
