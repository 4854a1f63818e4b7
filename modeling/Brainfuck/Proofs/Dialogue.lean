import Brainfuck.Prompt

/-!
# Dialogues

The prompt turn by turn. In a turn it hears a line and carries it out; the lines it hears, each with
what the prompt held when it heard it, are the transcript of the script.

## Main Definitions

* `Prompt.transcribe` — the lines that a prompt hears, and the session at its end

## Main Results

* `Feed.line_of_not_mem`, `Feed.line_of_append` — the line that a feed gives
* `Prompt.transcribe_cases`, `Prompt.carryOut_eq_goesOn`, `Prompt.runSource_eq_some` — all that a
  turn, a line and a text can do
* `Prompt.transcribe_snd`, `Prompt.dialogue_snd` — a transcript is that of the run

## Design Notes

A transcript holds every line that was read, also the one that ends the prompt and the one whose
program does not come to its end.
-/

namespace Brainfuck

namespace Feed

/-- A feed without a line feed gives all its bytes. -/
theorem line_of_not_mem {f : Feed} (h : 0x0A ∉ f.bytes) :
    f.line = (f.bytes, some f.stop, { f with bytes := [] }) := by
  have hne : ∀ b ∈ f.bytes, (b != 0x0A) = true := by
    intro b hb
    exact bne_iff_ne.mpr fun heq => h (heq ▸ hb)
  have htake : f.bytes.takeWhile (· != 0x0A) = f.bytes := by
    rw [← List.append_nil f.bytes, List.takeWhile_append_of_pos hne, List.takeWhile_nil]
  simp only [line, htake, List.drop_length]

/-- A feed with a line feed gives the bytes up to it. -/
theorem line_of_append {f : Feed} {front rest : Bytes} (h : 0x0A ∉ front)
    (hbytes : f.bytes = front ++ 0x0A :: rest) :
    f.line = (front ++ [0x0A], none, { f with bytes := rest }) := by
  have hne : ∀ b ∈ front, (b != 0x0A) = true := by
    intro b hb
    exact bne_iff_ne.mpr fun heq => h (heq ▸ hb)
  have htake : f.bytes.takeWhile (· != 0x0A) = front := by
    rw [hbytes, List.takeWhile_append_of_pos hne, List.takeWhile_cons_of_neg (by simp),
      List.append_nil]
  have hdrop : f.bytes.drop front.length = 0x0A :: rest := by
    rw [hbytes, List.drop_left]
  simp only [line, htake, hdrop]

/-- A feed with a line feed gives the same line with more bytes behind its own. -/
theorem line_extended {f : Feed} (h : 0x0A ∈ f.bytes) (more : Bytes) :
    (f.extended more).line = (f.line.1, f.line.2.1, f.line.2.2.extended more) := by
  obtain ⟨front, rest, hbytes, hfront⟩ := List.eq_append_cons_of_mem h
  have hlonger : (f.extended more).bytes = front ++ 0x0A :: (rest ++ more) := by
    rw [extended, hbytes]
    simp
  rw [line_of_append hfront hbytes, line_of_append hfront hlonger]
  rfl

/-- A line takes bytes from its feed. -/
theorem length_line_lt {f : Feed} (h : f.line.1 ≠ []) :
    f.line.2.2.bytes.length < f.bytes.length := by
  by_cases hmem : 0x0A ∈ f.bytes
  · obtain ⟨front, rest, hbytes, hfront⟩ := List.eq_append_cons_of_mem hmem
    rw [line_of_append hfront hbytes, hbytes, List.length_append, List.length_cons]
    show rest.length < _
    omega
  · rw [line_of_not_mem hmem] at h ⊢
    exact List.length_pos_iff.mpr h

/-- A feed without a line has no bytes. -/
theorem bytes_of_line_eq_nil {f : Feed} (h : f.line.1 = []) : f.bytes = [] := by
  by_cases hmem : 0x0A ∈ f.bytes
  · obtain ⟨front, rest, hbytes, hfront⟩ := List.eq_append_cons_of_mem hmem
    rw [line_of_append hfront hbytes] at h
    simp at h
  · rwa [line_of_not_mem hmem] at h

end Feed

namespace Prompt

/-- The lines that the prompt hears in up to `budget` turns, and the session at the end. -/
def transcribe (fuel : Nat) (interactive : Bool) :
    Nat → Stage → List Heard × Option Session
  | 0, st => ([], some st.session)
  | budget + 1, st =>
    let h := st.hear interactive
    if h.line.isEmpty then
      ([], some (if interactive then h.stage.session.print [0x0A] else h.stage.session))
    else
      match h.carryOut fuel interactive with
      | .goesOn next =>
        let (rest, result) := transcribe fuel interactive budget next
        (h :: rest, result)
      | .finished session => ([h], some session)
      | .endless => ([h], none)

/-- The lines that the prompt hears of a whole script, and the session at the end. -/
def dialogue (s : Session) (fuel : Nat) (interactive : Bool) (script : Option Feed) :
    List Heard × Option Session :=
  transcribe fuel interactive ((script.getD s.console.feed).bytes.length + 1)
    { script, session := if interactive then s.print banner else s }

section Turn

variable {fuel budget : Nat} {interactive : Bool} {st next : Stage}

theorem transcribe_of_isEmpty (hline : (st.hear interactive).line = []) :
    transcribe fuel interactive (budget + 1) st =
      ([], some (if interactive then (st.hear interactive).stage.session.print [0x0A]
        else (st.hear interactive).stage.session)) := by
  rw [transcribe, hline]
  rfl

theorem transcribe_of_goesOn (hline : (st.hear interactive).line ≠ [])
    (hnext : (st.hear interactive).carryOut fuel interactive = .goesOn next) :
    transcribe fuel interactive (budget + 1) st =
      (st.hear interactive :: (transcribe fuel interactive budget next).1,
        (transcribe fuel interactive budget next).2) := by
  rw [transcribe, hnext]
  simp [hline]

theorem transcribe_of_finished {session : Session} (hline : (st.hear interactive).line ≠ [])
    (hfinished : (st.hear interactive).carryOut fuel interactive = .finished session) :
    transcribe fuel interactive (budget + 1) st = ([st.hear interactive], some session) := by
  rw [transcribe, hfinished]
  simp [hline]

theorem transcribe_of_endless (hline : (st.hear interactive).line ≠ [])
    (hendless : (st.hear interactive).carryOut fuel interactive = .endless) :
    transcribe fuel interactive (budget + 1) st = ([st.hear interactive], none) := by
  rw [transcribe, hendless]
  simp [hline]

/-- A turn hears no line, or one after which the prompt goes on, or one with which it ends. -/
theorem transcribe_cases (fuel : Nat) (interactive : Bool) (budget : Nat) (st : Stage) :
    let h := st.hear interactive
    (h.line = [] ∧ (transcribe fuel interactive (budget + 1) st).1 = []) ∨
      (h.line ≠ [] ∧ ∃ next, h.carryOut fuel interactive = .goesOn next ∧
        (transcribe fuel interactive (budget + 1) st).1 =
          h :: (transcribe fuel interactive budget next).1) ∨
      (h.line ≠ [] ∧ (∀ next, h.carryOut fuel interactive ≠ .goesOn next) ∧
        (transcribe fuel interactive (budget + 1) st).1 = [h]) := by
  intro h
  by_cases hline : h.line = []
  · exact .inl ⟨hline, by rw [transcribe_of_isEmpty hline]⟩
  cases hout : h.carryOut fuel interactive with
  | goesOn next => exact .inr (.inl ⟨hline, next, rfl, by rw [transcribe_of_goesOn hline hout]⟩)
  | finished session =>
      refine .inr (.inr ⟨hline, ?_, by rw [transcribe_of_finished hline hout]⟩)
      intro next hnext
      cases hnext
  | endless =>
      refine .inr (.inr ⟨hline, ?_, by rw [transcribe_of_endless hline hout]⟩)
      intro next hnext
      cases hnext

/-- The first line of a transcript is heard on the stage itself. -/
theorem head?_transcribe (fuel : Nat) (interactive : Bool) (budget : Nat) (st : Stage) :
    ∀ h ∈ (transcribe fuel interactive budget st).1.head?, h = st.hear interactive := by
  intro h hhead
  cases budget with
  | zero => cases hhead
  | succ budget =>
      obtain ⟨-, hlog⟩ | ⟨-, next, -, hlog⟩ | ⟨-, -, hlog⟩ :=
        transcribe_cases fuel interactive budget st
      · rw [hlog] at hhead
        cases hhead
      · rw [hlog] at hhead
        cases hhead
        rfl
      · rw [hlog] at hhead
        cases hhead
        rfl

/-- A line that the prompt hears is in its transcript. -/
theorem hear_mem_transcribe (fuel budget : Nat) (hline : (st.hear interactive).line ≠ []) :
    st.hear interactive ∈ (transcribe fuel interactive (budget + 1) st).1 := by
  obtain ⟨hnil, -⟩ | ⟨-, next, -, hlog⟩ | ⟨-, -, hlog⟩ :=
    transcribe_cases fuel interactive budget st
  · exact absurd hnil hline
  · rw [hlog]
    exact List.mem_cons_self
  · rw [hlog]
    exact List.mem_cons_self

/-- How the prompt goes on. -/
theorem carryOut_eq_goesOn {h : Heard} (hnext : h.carryOut fuel interactive = .goesOn next) :
    (∃ pending, h.meaning = .waiting pending ∧ next = { h.stage with pending }) ∨
      (∃ source session, h.meaning = .source source ∧
        runSource h.stage.session fuel interactive source = some session ∧
        next = { h.stage with pending := [], session }) ∨
      ∃ line session, h.meaning = .command line ∧
        command h.stage.session line = .ok (false, session) ∧
        next = { h.stage with pending := [], session } := by
  unfold Heard.carryOut at hnext
  rcases hmeaning : h.meaning with line | pending | source
  · rcases hcommand : command h.stage.session line with e | ⟨_ | _, session⟩
    · simp [hmeaning, hcommand] at hnext
    · simp only [hmeaning, hcommand, Outcome.goesOn.injEq] at hnext
      exact .inr (.inr ⟨line, session, rfl, hcommand, hnext.symm⟩)
    · simp [hmeaning, hcommand] at hnext
  · simp only [hmeaning, Outcome.goesOn.injEq] at hnext
    exact .inl ⟨pending, rfl, hnext.symm⟩
  · rcases hrun : runSource h.stage.session fuel interactive source with _ | session
    · simp [hmeaning, hrun] at hnext
    · simp only [hmeaning, hrun, Outcome.goesOn.injEq] at hnext
      exact .inr (.inl ⟨source, session, rfl, hrun, hnext.symm⟩)

/-- A text that is not blank is run, and at most a text is printed behind its output. -/
theorem runSource_eq_some {s s' : Session} {source : Bytes}
    (h : runSource s fuel interactive source = some s') :
    (isBlankText source = true ∧ s' = s) ∨
      (isBlankText source = false ∧ ∃ r s₁, s.run fuel source = some (r, s₁) ∧
        (s' = s₁ ∨ ∃ t, s' = s₁.print t)) := by
  have hprinted (s₁ : Session) : some (if interactive then s₁.print [0x0A] else s₁) = some s' →
      s' = s₁ ∨ ∃ t, s' = s₁.print t := by
    intro hsome
    cases interactive with
    | false => exact .inl (Option.some.inj hsome).symm
    | true => exact .inr ⟨_, (Option.some.inj hsome).symm⟩
  unfold runSource at h
  by_cases hblank : isBlankText source = true
  · rw [if_pos hblank] at h
    exact .inl ⟨hblank, (Option.some.inj h).symm⟩
  rw [if_neg hblank] at h
  refine .inr ⟨Bool.eq_false_iff.mpr hblank, ?_⟩
  rcases hrun : s.run fuel source with _ | ⟨e | _, s₁⟩
  · rw [hrun] at h
    cases h
  · rw [hrun] at h
    refine ⟨_, s₁, rfl, ?_⟩
    by_cases hend : e.isEndOfInput = true
    · simp only [hend, if_true] at h
      exact hprinted s₁ h
    · simp only [hend] at h
      exact .inr ⟨_, (Option.some.inj h).symm⟩
  · rw [hrun] at h
    exact ⟨_, s₁, rfl, hprinted s₁ h⟩

/-- Carrying out a line does not touch a script of its own. -/
theorem script_of_goesOn {h : Heard} (hnext : h.carryOut fuel interactive = .goesOn next) :
    next.script = h.stage.script := by
  obtain ⟨pending, -, rfl⟩ | ⟨source, session, -, -, rfl⟩ | ⟨line, session, -, -, rfl⟩ :=
    carryOut_eq_goesOn hnext
  · rfl
  · rfl
  · rfl

end Turn

/-- The session at the end of a transcript is that of the run. -/
theorem transcribe_snd (fuel : Nat) (interactive : Bool) (budget : Nat) (st : Stage) :
    (transcribe fuel interactive budget st).2 = runLines fuel interactive budget st := by
  induction budget generalizing st with
  | zero => rfl
  | succ budget ih =>
      rw [transcribe, runLines, Stage.turn]
      dsimp only
      by_cases hline : (st.hear interactive).line.isEmpty = true
      · rw [if_pos hline, if_pos hline]
      · rw [if_neg hline, if_neg hline]
        cases (st.hear interactive).carryOut fuel interactive with
        | goesOn next => exact ih next
        | finished session => rfl
        | endless => rfl

theorem dialogue_snd (s : Session) (fuel : Nat) (interactive : Bool) (script : Option Feed) :
    (dialogue s fuel interactive script).2 = run s fuel interactive script := by
  unfold dialogue run
  rw [transcribe_snd]
  cases interactive with
  | false => rfl
  | true => rfl

end Prompt

end Brainfuck
