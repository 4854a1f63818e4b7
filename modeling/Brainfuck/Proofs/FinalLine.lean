import Brainfuck.Proofs.Conversations
import Mathlib.Data.List.DropRight

/-!
# The end of the final line

A script whose last line has no line feed, and the same script with one. The prompt meets the end of
the first together with the last line, and the end of the second behind it. It does the same on
both, as long as no bracket is open at the end and no program reads the line feed as its input.

## Main Definitions

* `Prompt.Stage.ended` — a stage with a line feed behind the script
* `Prompt.executed` — the texts that were run
* `Prompt.Heard.leavesOpen` — a text has an open bracket

## Main Results

* `Prompt.carryOut_ended` — one line, with the line feed still ahead
* `Prompt.transcribe_ended` — whole scripts
* `final_line_feed_is_optional` — runs of the prompt
* `final_line_feed_matters` — an open bracket, and a program that reads the line feed
-/

namespace Brainfuck

namespace Prompt

variable {fuel budget : Nat} {interactive : Bool} {s s' : Session}

/-! ## Stages -/

/-- The stage with other lines to come. -/
def Stage.withFeed (st : Stage) (feed : Feed) : Stage :=
  match st with
  | { pending, script := some _, session } => { pending, script := some feed, session }
  | { pending, script := none, session } => { pending, script := none, session := session.fed feed }

/-- The stage with a line feed behind the script. -/
def Stage.ended (st : Stage) : Stage :=
  st.withFeed (st.feed.extended [0x0A])

namespace Stage

variable (st : Stage) (f g : Feed)

theorem feed_withFeed : (st.withFeed f).feed = f := by
  obtain ⟨pending, _ | script, session⟩ := st
  · rfl
  · rfl

theorem withFeed_withFeed : (st.withFeed f).withFeed g = st.withFeed g := by
  obtain ⟨pending, _ | script, session⟩ := st
  · rfl
  · rfl

theorem withFeed_feed : st.withFeed st.feed = st := by
  obtain ⟨pending, _ | script, session⟩ := st
  · rfl
  · rfl

theorem pending_withFeed : (st.withFeed f).pending = st.pending := by
  obtain ⟨pending, _ | script, session⟩ := st
  · rfl
  · rfl

/-- A line is taken from the feed. -/
theorem hear_eq :
    st.hear false =
      { line := st.feed.line.1, last := st.feed.line.2.1.isSome,
        stage := st.withFeed st.feed.line.2.2 } := by
  obtain ⟨pending, _ | script, session⟩ := st
  · rfl
  · rfl

end Stage

section Hear

variable {st : Stage}

/-- Hearing a line does not give the prompt a script of its own, nor takes it away. -/
theorem script_hear : (st.hear false).stage.script = none ↔ st.script = none := by
  obtain ⟨pending, _ | script, session⟩ := st
  · exact Iff.rfl
  · exact iff_of_false (Option.some_ne_none _) (Option.some_ne_none _)

/-- At the end of a script nothing is heard. -/
theorem transcribe_of_nil (hnil : st.feed.bytes = []) :
    transcribe fuel false (budget + 1) st = ([], some st.session) := by
  have hmem : 0x0A ∉ st.feed.bytes := by simp [hnil]
  have hfeed : { st.feed with bytes := [] } = st.feed := by rw [← hnil]
  have hhear : st.hear false = { line := [], last := true, stage := st } := by
    rw [st.hear_eq, Feed.line_of_not_mem hmem, hfeed, st.withFeed_feed, hnil]
    rfl
  have hline : (st.hear false).line = [] := by rw [hhear]
  rw [transcribe_of_isEmpty hline, hhear]
  rfl

/-- The last line of a script, without a line feed and with one. -/
theorem hear_of_not_mem (hmem : 0x0A ∉ st.feed.bytes) :
    st.hear false =
        { line := st.feed.bytes, last := true,
          stage := st.withFeed { st.feed with bytes := [] } } ∧
      st.ended.hear false =
        { line := st.feed.bytes ++ [0x0A], last := false,
          stage := st.withFeed { st.feed with bytes := [] } } := by
  have hfeed : st.ended.feed = st.feed.extended [0x0A] := st.feed_withFeed _
  constructor
  · rw [st.hear_eq, Feed.line_of_not_mem hmem]
    rfl
  · rw [Stage.hear_eq, hfeed, Feed.line_of_append hmem rfl, Stage.ended, Stage.withFeed_withFeed]
    rfl

/-- A line with the end of the script still ahead. -/
theorem hear_of_append {front rest : Bytes} (hfront : 0x0A ∉ front)
    (hbytes : st.feed.bytes = front ++ 0x0A :: rest) :
    st.hear false =
        { line := front ++ [0x0A], last := false,
          stage := st.withFeed { st.feed with bytes := rest } } ∧
      st.ended.hear false = { st.hear false with stage := (st.hear false).stage.ended } := by
  have hhear : st.hear false =
      { line := front ++ [0x0A], last := false,
        stage := st.withFeed { st.feed with bytes := rest } } := by
    rw [st.hear_eq, Feed.line_of_append hfront hbytes]
    rfl
  have hfeed : st.ended.feed = st.feed.extended [0x0A] := st.feed_withFeed _
  have hlonger : (st.feed.extended [0x0A]).bytes = front ++ 0x0A :: (rest ++ [0x0A]) := by
    rw [Feed.extended, hbytes]
    simp
  refine ⟨hhear, ?_⟩
  rw [hhear, Stage.hear_eq, hfeed, Feed.line_of_append hfront hlonger]
  simp only [Stage.ended, Stage.withFeed_withFeed, Stage.feed_withFeed]
  rfl

end Hear

/-! ## One line -/

/-- The texts that were run, in order. -/
def executed (heard : List Heard) : List Bytes :=
  heard.filterMap fun h =>
    match h.meaning with
    | .source source => if isBlankText source then none else some source
    | .waiting _ => none
    | .command _ => none

/-- Whether a line ends a text that leaves a bracket open. -/
def Heard.leavesOpen (h : Heard) : Bool :=
  match h.meaning with
  | .source source => decide (0 < bracketDepth source)
  | _ => false

/-- What a line comes to, and what it comes to with a line feed behind the script. -/
inductive Outcome.Follows : Outcome → Outcome → Prop where
  | goesOn (next : Stage) : Follows (.goesOn next) (.goesOn next.ended)
  | finished {s s' : Session} : s'.fed .empty = s.fed .empty →
      Follows (.finished s) (.finished s')
  | endless : Follows .endless .endless

/-- A line is carried out alike with a line feed behind the script, unless it runs a program that
meets the end of the script. -/
theorem carryOut_ended (fuel : Nat) (h : Heard)
    (hinput : h.stage.script = none → h.meetsEnd fuel = false) :
    Outcome.Follows (h.carryOut fuel false)
      ({ h with stage := h.stage.ended }.carryOut fuel false) := by
  obtain ⟨line, last, pending, script, session⟩ := h
  cases script with
  | some feed =>
      -- the line feed is behind a script of its own, which no program sees
      simp only [Heard.carryOut, Heard.meaning, Stage.ended, Stage.withFeed, Stage.feed,
        Option.getD_some]
      cases classify pending (trimLine line) last with
      | waiting pending => exact .goesOn _
      | source source =>
          dsimp only
          cases runSource session fuel false source with
          | none => exact .endless
          | some s => exact .goesOn { pending := [], script := some feed, session := s }
      | command line =>
          dsimp only
          rcases command session line with e | ⟨_ | _, s⟩
          · exact .finished rfl
          · exact .goesOn { pending := [], script := some feed, session := s }
          · exact .finished rfl
  | none =>
      have hended : { line, last, stage := Stage.ended ⟨pending, none, session⟩ : Heard } =
          { line, last, stage := Stage.extended ⟨pending, none, session⟩ [0x0A] } := rfl
      rw [hended, carryOut_extended rfl (hinput rfl) false [0x0A]]
      cases hout : Heard.carryOut fuel false ⟨line, last, ⟨pending, none, session⟩⟩ with
      | goesOn next =>
          have hscript : next.script = none := script_of_goesOn hout
          obtain ⟨pending', script', session'⟩ := next
          obtain rfl : script' = none := hscript
          exact .goesOn ⟨pending', none, session'⟩
      | finished session' => exact .finished rfl
      | endless => exact .endless

/-- The last line means the same with its line feed, unless it leaves a bracket open. -/
theorem meaning_of_last {line : Bytes} {stage : Stage}
    (hclosed : ({ line, last := true, stage } : Heard).leavesOpen = false) :
    ({ line := line ++ [0x0A], last := false, stage } : Heard).meaning =
      ({ line, last := true, stage } : Heard).meaning := by
  have htrim : trimLine (line ++ [0x0A]) = trimLine line := List.rdropWhile_concat_pos _ _ _ rfl
  unfold Heard.leavesOpen at hclosed
  unfold Heard.meaning at hclosed ⊢
  dsimp only at hclosed ⊢
  rw [htrim]
  by_cases hcommand : (stage.pending.isEmpty && (trimLine line).head? == some 0x3A) = true
  · simp only [classify, if_pos hcommand]
  · simpa [classify, hcommand] using hclosed

/-! ## Whole scripts -/

/-- A stage whose script does not end with a line feed. Lines that wait are followed by another. -/
structure Unended (st : Stage) : Prop where
  settled : st.feed.bytes = [] → st.pending = []
  last_ne : st.feed.bytes.getLast? ≠ some 0x0A

/-- Behind a line a script still does not end with a line feed. -/
theorem Unended.next {st next : Stage} (h : Unended st) {front rest : Bytes}
    (hbytes : st.feed.bytes = front ++ 0x0A :: rest)
    (hnext : next.feed.IsRestOf { st.feed with bytes := rest })
    (hpending : next.pending = [] ∨ next.feed = { st.feed with bytes := rest }) :
    Unended next := by
  have hlast := h.last_ne
  rw [hbytes] at hlast
  refine ⟨?_, ?_⟩
  · intro hnil
    obtain hdone | hfeed := hpending
    · exact hdone
    · have hrest : rest = [] := by rwa [hfeed] at hnil
      rw [hrest, List.getLast?_concat] at hlast
      exact absurd rfl hlast
  · intro hend
    obtain ⟨read, hread⟩ : next.feed.bytes <:+ rest := hnext.suffix
    refine hlast ?_
    rw [← hread, List.getLast?_append, List.getLast?_cons, List.getLast?_append, hend]
    rfl

/-- Two dialogues in which the same texts were run, and which end with the same session up to the
input that is left. -/
structure Alike (a b : List Heard × Option Session) : Prop where
  executed_eq : executed b.1 = executed a.1
  result_eq : b.2.map (·.fed .empty) = a.2.map (·.fed .empty)

theorem alike_refl (a : List Heard × Option Session) : Alike a a :=
  ⟨rfl, rfl⟩

theorem Alike.cons {a b : List Heard × Option Session} (h : Alike a b) {x y : Heard}
    (hmeaning : y.meaning = x.meaning) : Alike (x :: a.1, a.2) (y :: b.1, b.2) := by
  refine ⟨?_, h.result_eq⟩
  have heq := h.executed_eq
  unfold executed at heq ⊢
  rw [List.filterMap_cons, List.filterMap_cons, hmeaning, heq]

/-- A blank line at the end is heard, and nothing comes of it. -/
theorem alike_of_nil {st : Stage} (hnil : st.feed.bytes = []) (hpending : st.pending = []) :
    Alike (transcribe fuel false (budget + 1) st)
      (transcribe fuel false (budget + 1 + 1) st.ended) := by
  have hfeed : { st.feed with bytes := [] } = st.feed := by rw [← hnil]
  have hhear : st.ended.hear false = { line := [0x0A], last := false, stage := st } := by
    rw [(hear_of_not_mem (by simp [hnil])).2, hfeed, st.withFeed_feed, hnil]
    rfl
  have hmeaning : (st.ended.hear false).meaning = .source [0x0A] := by
    rw [hhear, Heard.meaning, hpending]
    rfl
  have hrun : runSource st.session fuel false [0x0A] = some st.session := by
    rw [runSource, if_pos (by decide)]
  have hnext : (st.ended.hear false).carryOut fuel false = .goesOn st := by
    rw [Heard.carryOut, hmeaning, hhear]
    simp only [hrun]
    obtain ⟨pending, script, session⟩ := st
    obtain rfl : pending = [] := hpending
    rfl
  have hline : (st.ended.hear false).line ≠ [] := by
    rw [hhear]
    exact List.cons_ne_nil _ _
  rw [transcribe_of_goesOn hline hnext, transcribe_of_nil hnil]
  refine ⟨?_, rfl⟩
  have hblank : isBlankText [0x0A] = true := by decide
  simp only [executed, List.filterMap_cons, hmeaning, hblank, if_true]

theorem carryOut_congr {x y : Heard} (hmeaning : y.meaning = x.meaning)
    (hstage : y.stage = x.stage) (fuel : Nat) (interactive : Bool) :
    y.carryOut fuel interactive = x.carryOut fuel interactive := by
  unfold Heard.carryOut
  rw [hmeaning, hstage]

/-- The last line, without a line feed and with one. -/
theorem alike_of_not_mem {st : Stage} (hmem : 0x0A ∉ st.feed.bytes) (hne : st.feed.bytes ≠ [])
    (hclosed : (st.hear false).leavesOpen = false) :
    Alike (transcribe fuel false (budget + 1 + 1) st)
      (transcribe fuel false (budget + 1 + 1 + 1) st.ended) := by
  obtain ⟨hhear, hhear'⟩ := hear_of_not_mem hmem
  have hmeaning : (st.ended.hear false).meaning = (st.hear false).meaning := by
    rw [hhear] at hclosed ⊢
    rw [hhear']
    exact meaning_of_last hclosed
  have hstage : (st.ended.hear false).stage = (st.hear false).stage := by rw [hhear, hhear']
  have hline : (st.hear false).line ≠ [] := by rwa [hhear]
  have hline' : (st.ended.hear false).line ≠ [] := by
    rw [hhear']
    exact List.append_ne_nil_of_right_ne_nil _ (List.cons_ne_nil _ _)
  have hsame := carryOut_congr hmeaning hstage fuel false
  cases hout : (st.hear false).carryOut fuel false with
  | goesOn next =>
      -- nothing is left of the script, in both cases
      have hnil : next.feed.bytes = [] := by
        have hrest := (rest_of_goesOn hout).1.suffix
        rw [hhear, Stage.feed_withFeed] at hrest
        exact List.suffix_nil.mp hrest
      rw [transcribe_of_goesOn hline hout, transcribe_of_goesOn hline' (hsame.trans hout),
        transcribe_of_nil hnil, transcribe_of_nil hnil]
      exact (alike_refl _).cons hmeaning
  | finished session =>
      rw [transcribe_of_finished hline hout, transcribe_of_finished hline' (hsame.trans hout)]
      exact (alike_refl ([], some session)).cons hmeaning
  | endless =>
      rw [transcribe_of_endless hline hout, transcribe_of_endless hline' (hsame.trans hout)]
      exact (alike_refl ([], none)).cons hmeaning

/-- A line with the end of the script still ahead. It comes to the same, and so do the lines that
follow it if they do. -/
theorem alike_of_append {st : Stage} {front rest : Bytes} (hfront : 0x0A ∉ front)
    (hbytes : st.feed.bytes = front ++ 0x0A :: rest)
    (hinput : st.script = none → (st.hear false).meetsEnd fuel = false)
    (hfollowing : ∀ next, (st.hear false).carryOut fuel false = .goesOn next →
      Alike (transcribe fuel false budget next) (transcribe fuel false (budget + 1) next.ended)) :
    Alike (transcribe fuel false (budget + 1) st)
      (transcribe fuel false (budget + 1 + 1) st.ended) := by
  obtain ⟨hhear, hhear'⟩ := hear_of_append hfront hbytes
  have hline : (st.hear false).line ≠ [] := by
    rw [hhear]
    exact List.append_ne_nil_of_right_ne_nil _ (List.cons_ne_nil _ _)
  have hline' : (st.ended.hear false).line ≠ [] := by rwa [hhear']
  have hmeaning : (st.ended.hear false).meaning = (st.hear false).meaning := by
    rw [hhear', Heard.meaning, Stage.ended, Stage.pending_withFeed]
    rfl
  have hfollows := carryOut_ended fuel (st.hear false) (by
    rw [script_hear]
    exact hinput)
  rw [← hhear'] at hfollows
  generalize hout : (st.hear false).carryOut fuel false = out,
    hout' : (st.ended.hear false).carryOut fuel false = out' at hfollows
  cases hfollows with
  | goesOn next =>
      rw [transcribe_of_goesOn hline hout, transcribe_of_goesOn hline' hout']
      exact (hfollowing next hout).cons hmeaning
  | @finished s s' hs =>
      rw [transcribe_of_finished hline hout, transcribe_of_finished hline' hout']
      have hfinished : Alike ([], some s) ([], some s') := ⟨rfl, congrArg some hs⟩
      exact hfinished.cons hmeaning
  | endless =>
      rw [transcribe_of_endless hline hout, transcribe_of_endless hline' hout']
      exact (alike_refl ([], none)).cons hmeaning

/-- **Whole scripts.** The prompt does the same with a line feed behind the script. -/
theorem transcribe_ended {st : Stage} (hunended : Unended st)
    (hbudget : st.feed.bytes.length < budget)
    (hclosed : ∀ h ∈ (transcribe fuel false budget st).1, h.last = true → h.leavesOpen = false)
    (hinput : st.script = none →
      ∀ h ∈ (transcribe fuel false budget st).1, h.last = false → h.meetsEnd fuel = false) :
    Alike (transcribe fuel false budget st) (transcribe fuel false (budget + 1) st.ended) := by
  induction budget generalizing st with
  | zero => exact absurd hbudget (Nat.not_lt_zero _)
  | succ budget ih =>
      by_cases hnil : st.feed.bytes = []
      · exact alike_of_nil hnil (hunended.settled hnil)
      have hline : (st.hear false).line ≠ [] := by
        rw [st.hear_eq]
        exact fun heq => hnil (Feed.bytes_of_line_eq_nil heq)
      have hheard := hear_mem_transcribe fuel budget hline
      by_cases hmem : 0x0A ∈ st.feed.bytes
      · obtain ⟨front, rest, hbytes, hfront⟩ := List.eq_append_cons_of_mem hmem
        have hhear := (hear_of_append hfront hbytes).1
        refine alike_of_append hfront hbytes ?_ ?_
        · exact fun hnone => hinput hnone _ hheard (by rw [hhear])
        · intro next hnext
          obtain ⟨hrest, hpending⟩ := rest_of_goesOn hnext
          rw [hhear, Stage.feed_withFeed] at hrest hpending
          rw [transcribe_of_goesOn hline hnext] at hclosed hinput
          refine ih (hunended.next hbytes hrest hpending) ?_ ?_ ?_
          · have hle : next.feed.bytes.length ≤ rest.length := hrest.suffix.length_le
            rw [hbytes, List.length_append, List.length_cons] at hbudget
            omega
          · exact fun h hmem => hclosed h (List.mem_cons_of_mem _ hmem)
          · intro hnone h hmem
            rw [script_of_goesOn hnext, script_hear] at hnone
            exact hinput hnone h (List.mem_cons_of_mem _ hmem)
      · have hpos := List.length_pos_iff.mpr hnil
        obtain ⟨budget, rfl⟩ : ∃ n, budget = n + 1 := ⟨budget - 1, by omega⟩
        refine alike_of_not_mem hmem hnil (hclosed _ hheard ?_)
        rw [(hear_of_not_mem hmem).1]

end Prompt

open Prompt in
/-- **A final line feed is optional.** Take a script, of its own or the input of the session, that
does not end with a line feed. Let no bracket be open at its end and, if the script is the input of
the session, let no program meet its end before the last line was heard. Then the prompt runs the
same texts if a line feed is added to the script, and leaves the same session up to the input. -/
theorem final_line_feed_is_optional (s : Session) (fuel : Nat) (script : Option Feed)
    (hlast : (script.getD s.console.feed).bytes.getLast? ≠ some 0x0A)
    (hclosed : ∀ h ∈ (dialogue s fuel false script).1, h.last = true → h.leavesOpen = false)
    (hinput : script = none →
      ∀ h ∈ (dialogue s fuel false script).1, h.last = false → h.meetsEnd fuel = false) :
    let ended := Stage.ended { script, session := s }
    executed (dialogue ended.session fuel false ended.script).1 =
        executed (dialogue s fuel false script).1 ∧
      (Prompt.run ended.session fuel false ended.script).map (·.fed .empty) =
        (Prompt.run s fuel false script).map (·.fed .empty) := by
  intro ended
  have hunended : Unended { script, session := s } := ⟨fun _ => rfl, hlast⟩
  have halike := transcribe_ended hunended (Nat.lt_succ_self _) hclosed hinput
  have hfeed : ended.script.getD ended.session.console.feed =
      (script.getD s.console.feed).extended [0x0A] := Stage.feed_withFeed _ _
  have hstage : ended = { script := ended.script, session := ended.session } := by
    have hpending : ended.pending = [] := Stage.pending_withFeed _ _
    rw [← hpending]
  have hended : dialogue ended.session fuel false ended.script =
      transcribe fuel false ((script.getD s.console.feed).bytes.length + 1 + 1) ended := by
    rw [dialogue, hfeed, Feed.extended, List.length_append, hstage]
    rfl
  rw [← dialogue_snd, ← dialogue_snd, hended]
  exact ⟨halike.executed_eq, halike.result_eq⟩

open Prompt in
/-- The script is the input of the session, and its first program reads a byte of the last line. -/
theorem final_line_feed_is_optional_after_read :
    let s : Session :=
      { settings := {}, tape := #[0], console := { feed := { bytes := text ",.\na+" } },
        store := .absent, host := {} }
    s.console.feed.bytes.getLast? ≠ some 0x0A ∧
      (∀ h ∈ (dialogue s 10 false none).1, h.last = true → h.leavesOpen = false) ∧
      (∀ h ∈ (dialogue s 10 false none).1, h.last = false → h.meetsEnd 10 = false) ∧
      executed (dialogue (s.extended [0x0A]) 10 false none).1 = [text ",.\n", text "+\n"] ∧
      (Prompt.run (s.extended [0x0A]) 10 false none).map (·.fed .empty) =
        some
          { s with
            tape := #[98]
            console := { feed := .empty, sink := { received := #[97] } } } := by
  intro s
  have hlast : s.console.feed.bytes.getLast? ≠ some 0x0A := by decide
  have hclosed : ∀ h ∈ (dialogue s 10 false none).1, h.last = true → h.leavesOpen = false := by
    decide
  have hinput : ∀ h ∈ (dialogue s 10 false none).1, h.last = false → h.meetsEnd 10 = false := by
    decide
  obtain ⟨hexecuted, hrun⟩ :=
    final_line_feed_is_optional s 10 none hlast hclosed fun _ => hinput
  refine ⟨hlast, hclosed, hinput, hexecuted.trans ?_, hrun.trans ?_⟩
  · decide
  · decide

/-- A line feed behind an open bracket, where the prompt waits for another line in vain, and one
that a program reads. -/
theorem final_line_feed_matters :
    let s : Session :=
      { settings := {}, tape := #[0, 0], console := { feed := .empty }, store := .absent,
        host := {} }
    (Prompt.run s 100 false (some { bytes := text "+[>+<-" })).map (·.tape) = some #[0, 1] ∧
      (Prompt.run s 100 false (some { bytes := text "+[>+<-\n" })).map (·.tape) = some #[0, 0] ∧
      (Prompt.run (s.fed { bytes := text ",,\na" }) 100 false none).map (·.tape) = some #[97, 0] ∧
      (Prompt.run (s.fed { bytes := text ",,\na\n" }) 100 false none).map (·.tape) =
        some #[10, 0] := by
  refine ⟨?_, ?_, ?_, ?_⟩ <;> decide

end Brainfuck
