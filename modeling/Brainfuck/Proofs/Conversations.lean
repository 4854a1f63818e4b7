import Brainfuck.Proofs.Dialogue
import Brainfuck.Proofs.Inputs

/-!
# Conversations

A conversation gets its script line by line and answers as soon as it can. It comes to the session
that a prompt comes to with the whole script before it, and what is shown on the way is the
beginning of what is printed in the end.

## Main Definitions

* `Prompt.Stage.feed`, `Prompt.Stage.asked` — the feed that the next line comes from, and the stage
  once its marker is shown
* `Prompt.Outcome.extended`, `Prompt.Outcome.session?` — what a turn comes to with more bytes behind
  the input, and the session that it comes to
* `Prompt.User` — a user with lines to type

## Main Results

* `Prompt.runSource_extended`, `Prompt.command_fed` — texts and commands on a longer input
* `Prompt.carryOut_extended`, `Prompt.turn_extended` — turns on a longer input
* `Prompt.runLines_eq` — turns beyond the end of a script
* `Prompt.converse_eq`, `Prompt.seen_of_converse` — the end of a conversation, and what is shown
* `Prompt.conversation_is_run` — conversations are runs of the prompt
-/

namespace Brainfuck

namespace Prompt

/-! ## Texts and commands on a longer input -/

variable {fuel budget : Nat} {interactive : Bool} {s s' : Session}

theorem perform_fed (s : Session) (name : Bytes) (arguments : List Bytes) (feed : Feed) :
    perform (s.fed feed) name arguments =
      ((perform s name arguments).1, (perform s name arguments).2.fed feed) := by
  have htape (argument : Option Bytes) :
      showTape (s.fed feed) argument = (showTape s argument).fed feed := by
    unfold showTape
    cases argument with
    | none => rfl
    | some count =>
        dsimp only
        cases (Numeral.ofDecimal? count).filter (0 < ·) with
        | none => rfl
        | some n => rfl
  unfold perform
  rw [htape]
  split
  · rfl
  · split
    · rfl
    · split
      · rfl
      · rfl

/-- A command does not see the input. -/
theorem command_fed (s : Session) (line : Bytes) (feed : Feed) :
    command (s.fed feed) line =
      (command s line).map fun answer => (answer.1, answer.2.fed feed) := by
  unfold command
  cases fields line with
  | nil => rfl
  | cons name arguments => exact congrArg Except.ok (perform_fed s name arguments feed)

theorem feed_command {line : Bytes} {quits : Bool} (h : command s line = .ok (quits, s')) :
    s'.console.feed = s.console.feed := by
  have hfed : command s line = .ok (quits, s'.fed s.console.feed) := by
    have hsame := command_fed s line s.console.feed
    rwa [h] at hsame
  have heq := Except.ok.inj (h.symm.trans hfed)
  exact congrArg (fun answer => answer.2.console.feed) heq

theorem rest_of_runSource {source : Bytes} (h : runSource s fuel interactive source = some s') :
    s'.console.feed.IsRestOf s.console.feed := by
  obtain ⟨-, rfl⟩ | ⟨-, r, s₁, hrun, hprinted⟩ := runSource_eq_some h
  · exact .refl _
  · have hrest := Session.rest_of_run hrun
    obtain rfl | ⟨t, rfl⟩ := hprinted
    · exact hrest
    · exact hrest

/-- A text on a longer input does the same, unless its program meets the end of the shorter one. -/
theorem runSource_extended (s : Session) (fuel : Nat) (interactive : Bool) (source more : Bytes) :
    (isBlankText source = false ∧
        ∃ i s', s.run fuel source = some (.error (.run (.input i s.console.feed.stop)), s')) ∨
      runSource (s.extended more) fuel interactive source =
        (runSource s fuel interactive source).map fun s' => s'.extended more := by
  unfold runSource
  by_cases hblank : isBlankText source = true
  · rw [if_pos hblank, if_pos hblank]
    exact .inr rfl
  rw [if_neg hblank, if_neg hblank]
  obtain hend | hsame := s.run_extended fuel source more
  · exact .inl ⟨Bool.eq_false_iff.mpr hblank, hend⟩
  refine .inr ?_
  rw [hsame]
  rcases s.run fuel source with _ | ⟨e | _, s₁⟩
  · rfl
  · dsimp only [Option.map_some]
    cases e.isEndOfInput with
    | false => rfl
    | true =>
        cases interactive with
        | false => rfl
        | true => rfl
  · cases interactive with
    | false => rfl
    | true => rfl

/-! ## Turns on a longer input -/

/-- The feed that the next line comes from. -/
def Stage.feed (st : Stage) : Feed :=
  st.script.getD st.session.console.feed

/-- What a turn comes to with more bytes behind the input. -/
def Outcome.extended (more : Bytes) : Outcome → Outcome
  | .goesOn next => .goesOn (next.extended more)
  | .finished session => .finished (session.extended more)
  | .endless => .endless

/-- What a session is when the prompt has asked for a line. -/
def Stage.asked (interactive : Bool) (st : Stage) : Session :=
  if interactive then st.session.print (question st.pending) else st.session

theorem Stage.feed_of_input {st : Stage} (hscript : st.script = none) :
    st.feed = st.session.console.feed := by
  rw [feed, hscript, Option.getD_none]

theorem Stage.extended_nil (st : Stage) : st.extended [] = st := by
  rw [extended, Session.extended_nil]

theorem Stage.extended_extended (st : Stage) (more more' : Bytes) :
    (st.extended more).extended more' = st.extended (more ++ more') := by
  rw [extended, extended, extended, Session.extended_extended]

section Turn

variable {st next : Stage} {h : Heard}

/-- A line of the input of a session. -/
theorem hear_of_input (hscript : st.script = none) (interactive : Bool) :
    st.hear interactive =
      { line := st.session.console.feed.line.1,
        last := st.session.console.feed.line.2.1.isSome,
        stage := { st with
          session := (st.asked interactive).fed st.session.console.feed.line.2.2 } } := by
  obtain ⟨pending, script, session⟩ := st
  obtain rfl : script = none := hscript
  cases interactive with
  | false => rfl
  | true => rfl

theorem mem_of_hear (hscript : st.script = none) (hlast : (st.hear interactive).last = false) :
    0x0A ∈ st.session.console.feed.bytes := by
  by_contra hmem
  rw [hear_of_input hscript, Feed.line_of_not_mem hmem] at hlast
  cases hlast

/-- A complete line is heard alike with more bytes behind it. -/
theorem hear_extended (hscript : st.script = none) (hlast : (st.hear interactive).last = false)
    (more : Bytes) :
    (st.extended more).hear interactive =
      { st.hear interactive with stage := (st.hear interactive).stage.extended more } := by
  have hline : (st.extended more).session.console.feed.line = _ :=
    Feed.line_extended (mem_of_hear hscript hlast) more
  have hasked : (st.extended more).asked interactive = (st.asked interactive).extended more := by
    cases interactive with
    | false => rfl
    | true => rfl
  have hscript' : (st.extended more).script = none := hscript
  rw [hear_of_input hscript, hear_of_input hscript', hline, hasked]
  rfl

/-- A line is carried out alike with more bytes behind the input, unless it runs a program that
meets the end of the input. -/
theorem carryOut_extended (hscript : h.stage.script = none) (hend : h.meetsEnd fuel = false)
    (interactive : Bool) (more : Bytes) :
    { h with stage := h.stage.extended more }.carryOut fuel interactive =
      (h.carryOut fuel interactive).extended more := by
  obtain ⟨line, last, pending, script, session⟩ := h
  obtain rfl : script = none := hscript
  simp only [Heard.carryOut, Heard.meaning, Stage.extended]
  cases hclassify : classify pending (trimLine line) last with
  | waiting pending => rfl
  | source source =>
      obtain ⟨hblank, i, s, hrun⟩ | hsame :=
        runSource_extended session fuel interactive source more
      · simp [Heard.meetsEnd, Heard.meaning, hclassify, hrun, hblank] at hend
      · dsimp only
        rw [hsame]
        cases runSource session fuel interactive source with
        | none => rfl
        | some s => rfl
  | command line =>
      dsimp only
      rw [Session.extended, command_fed]
      rcases hcommand : command session line with e | ⟨_ | _, s⟩
      · rfl
      · rw [← feed_command hcommand]
        rfl
      · rw [← feed_command hcommand]
        rfl

theorem rest_of_goesOn {h : Heard} {next : Stage}
    (hnext : h.carryOut fuel interactive = .goesOn next) :
    next.feed.IsRestOf h.stage.feed ∧ (next.pending = [] ∨ next.feed = h.stage.feed) := by
  obtain ⟨line, last, pending, script, session⟩ := h
  obtain ⟨pending', -, rfl⟩ | ⟨source, session', -, hrun, rfl⟩ |
    ⟨line', session', -, hcommand, rfl⟩ := carryOut_eq_goesOn hnext
  · exact ⟨.refl _, .inr rfl⟩
  · refine ⟨?_, .inl rfl⟩
    cases script with
    | some feed => exact .refl _
    | none => exact rest_of_runSource hrun
  · refine ⟨?_, .inl rfl⟩
    cases script with
    | some feed => exact .refl _
    | none =>
        show session'.console.feed.IsRestOf session.console.feed
        rw [feed_command hcommand]
        exact .refl _

theorem turn_eq_goesOn (hnext : st.turn fuel interactive = .goesOn next) :
    (st.hear interactive).line ≠ [] ∧
      (st.hear interactive).carryOut fuel interactive = .goesOn next := by
  unfold Stage.turn at hnext
  dsimp only at hnext
  split at hnext
  · cases hnext
  next hline => exact ⟨fun hnil => hline (List.isEmpty_iff.mpr hnil), hnext⟩

/-- A turn after which the prompt goes on takes bytes from the feed. -/
theorem length_of_turn (hnext : st.turn fuel interactive = .goesOn next) :
    next.feed.bytes.length < st.feed.bytes.length := by
  obtain ⟨hline, hcarried⟩ := turn_eq_goesOn hnext
  have hrest := (rest_of_goesOn hcarried).1.suffix.length_le
  have hfeed : (st.hear interactive).stage.feed = st.feed.line.2.2 ∧
      (st.hear interactive).line = st.feed.line.1 := by
    obtain ⟨pending, _ | script, session⟩ := st
    · cases interactive with
      | false => exact ⟨rfl, rfl⟩
      | true => exact ⟨rfl, rfl⟩
    · exact ⟨rfl, rfl⟩
  rw [hfeed.1] at hrest
  have hlt := Feed.length_line_lt (hfeed.2 ▸ hline)
  omega

/-- Turns beyond the end of the script make no difference. -/
theorem runLines_eq {budget budget' : Nat} (h : st.feed.bytes.length < budget)
    (h' : st.feed.bytes.length < budget') :
    runLines fuel interactive budget st = runLines fuel interactive budget' st := by
  induction budget generalizing budget' st with
  | zero => exact absurd h (Nat.not_lt_zero _)
  | succ budget ih =>
      obtain ⟨budget', rfl⟩ := Nat.exists_eq_succ_of_ne_zero (Nat.ne_zero_of_lt h')
      rw [runLines, runLines]
      cases hturn : st.turn fuel interactive with
      | goesOn next =>
          have hlt := length_of_turn hturn
          exact ih (by omega) (by omega)
      | finished session => rfl
      | endless => rfl

theorem script_of_turn (hnext : st.turn fuel interactive = .goesOn next)
    (hscript : st.script = none) : next.script = none := by
  obtain ⟨-, hcarried⟩ := turn_eq_goesOn hnext
  rw [script_of_goesOn hcarried, hear_of_input hscript]
  exact hscript

/-- All that an attempt can come to. -/
theorem attempt_cases (fuel : Nat) (st : Stage) :
    ((st.hear true).last = true ∧ st.attempt fuel = .waits (st.asked true)) ∨
      ((st.hear true).last = false ∧ (st.hear true).meetsEnd fuel = true ∧
        st.attempt fuel = .waits ((st.hear true).afterRun fuel)) ∨
      ((st.hear true).last = false ∧ (st.hear true).meetsEnd fuel = false ∧
        st.attempt fuel = .taken ((st.hear true).carryOut fuel true)) := by
  rw [Stage.attempt]
  by_cases hlast : (st.hear true).last = true
  · rw [if_pos hlast]
    exact .inl ⟨hlast, rfl⟩
  rw [if_neg hlast]
  refine .inr ?_
  by_cases hend : (st.hear true).meetsEnd fuel = true
  · rw [if_pos hend]
    exact .inl ⟨Bool.eq_false_iff.mpr hlast, hend, rfl⟩
  · rw [if_neg hend]
    exact .inr ⟨Bool.eq_false_iff.mpr hlast, Bool.eq_false_iff.mpr hend, rfl⟩

/-- A complete line is carried out, also with more bytes behind it. -/
theorem turn_of_last (hscript : st.script = none) (hlast : (st.hear true).last = false)
    (more : Bytes) :
    (st.extended more).turn fuel true =
      { st.hear true with stage := (st.hear true).stage.extended more }.carryOut fuel true := by
  have hmem := mem_of_hear hscript hlast
  have hline : ¬ (st.hear true).line.isEmpty = true := by
    rw [List.isEmpty_iff, hear_of_input hscript]
    intro hnil
    rw [Feed.bytes_of_line_eq_nil hnil] at hmem
    cases hmem
  rw [Stage.turn, hear_extended hscript hlast more]
  dsimp only
  rw [if_neg hline]

/-- A turn that was taken is taken with more bytes behind the input, too. -/
theorem turn_extended {outcome : Outcome} (hscript : st.script = none)
    (htaken : st.attempt fuel = .taken outcome) (more : Bytes) :
    (st.extended more).turn fuel true = outcome.extended more := by
  obtain ⟨-, hwaits⟩ | ⟨-, -, hwaits⟩ | ⟨hlast, hend, hcarried⟩ := attempt_cases fuel st
  · cases hwaits.symm.trans htaken
  · cases hwaits.symm.trans htaken
  · cases hcarried.symm.trans htaken
    have hnone : (st.hear true).stage.script = none := by
      rw [hear_of_input hscript]
      exact hscript
    rw [turn_of_last hscript hlast more]
    exact carryOut_extended hnone hend true more

/-- After a turn that was taken less of the input is left. -/
theorem input_of_taken (hscript : st.script = none)
    (htaken : st.attempt fuel = .taken (.goesOn next)) :
    next.script = none ∧
      next.session.console.feed.bytes.length < st.session.console.feed.bytes.length := by
  have hnext : st.turn fuel true = .goesOn next := by
    have hsame := turn_extended hscript htaken []
    rwa [st.extended_nil, Outcome.extended, next.extended_nil] at hsame
  have hscript' := script_of_turn hnext hscript
  have hlt := length_of_turn hnext
  rw [Stage.feed_of_input hscript, Stage.feed_of_input hscript'] at hlt
  exact ⟨hscript', hlt⟩

end Turn

/-! ## What is printed -/

/-- The session that a turn leaves. -/
def Outcome.session? : Outcome → Option Session
  | .goesOn next => some next.session
  | .finished session => some session
  | .endless => none

section Printed

variable {st : Stage}

theorem printed_print (s : Session) (t : Bytes) : s.printed <+: (s.print t).printed := by
  show _ <+: (s.console.sink.print t).received.toList
  rw [Sink.print, Sink.write, Array.toList_append]
  exact List.prefix_append _ _

theorem printed_runSource {source : Bytes} (h : runSource s fuel interactive source = some s') :
    s.printed <+: s'.printed := by
  obtain ⟨-, rfl⟩ | ⟨-, r, s₁, hrun, hprinted⟩ := runSource_eq_some h
  · exact List.prefix_rfl
  · have hran := Session.printed_run hrun
    obtain rfl | ⟨t, rfl⟩ := hprinted
    · exact hran
    · exact hran.trans (printed_print s₁ t)

theorem printed_perform (s : Session) (name : Bytes) (arguments : List Bytes) :
    s.printed <+: (perform s name arguments).2.printed := by
  have htape (argument : Option Bytes) : s.printed <+: (showTape s argument).printed := by
    unfold showTape
    cases argument with
    | none => exact printed_print s _
    | some count =>
        dsimp only
        cases (Numeral.ofDecimal? count).filter (0 < ·) with
        | none => exact printed_print s _
        | some n => exact printed_print s _
  unfold perform
  split
  · exact List.prefix_rfl
  · split
    · exact List.prefix_rfl
    · split
      · exact htape arguments.head?
      · exact printed_print s _

theorem printed_command {line : Bytes} {quits : Bool} (h : command s line = .ok (quits, s')) :
    s.printed <+: s'.printed := by
  unfold command at h
  cases hfields : fields line with
  | nil =>
      rw [hfields] at h
      cases h
  | cons name arguments =>
      rw [hfields] at h
      have hs' : (perform s name arguments).2 = s' := congrArg Prod.snd (Except.ok.inj h)
      rw [← hs']
      exact printed_perform s name arguments

/-- Carrying out a line adds to what was printed. -/
theorem printed_carryOut {h : Heard} (hleft : (h.carryOut fuel interactive).session? = some s) :
    h.stage.session.printed <+: s.printed := by
  unfold Heard.carryOut at hleft
  cases hmeaning : h.meaning with
  | waiting pending =>
      rw [hmeaning] at hleft
      cases hleft
      exact List.prefix_rfl
  | source source =>
      rw [hmeaning] at hleft
      dsimp only at hleft
      cases hrun : runSource h.stage.session fuel interactive source with
      | none =>
          rw [hrun] at hleft
          cases hleft
      | some s₁ =>
          rw [hrun] at hleft
          cases hleft
          exact printed_runSource hrun
  | command line =>
      rw [hmeaning] at hleft
      dsimp only at hleft
      rcases hcommand : command h.stage.session line with e | ⟨_ | _, s₁⟩
      · rw [hcommand] at hleft
        cases hleft
        exact List.prefix_rfl
      · rw [hcommand] at hleft
        cases hleft
        exact printed_command hcommand
      · rw [hcommand] at hleft
        cases hleft
        exact printed_command hcommand

theorem printed_hear (interactive : Bool) (st : Stage) :
    (st.hear interactive).stage.session.printed = (st.asked interactive).printed := by
  obtain ⟨pending, _ | script, session⟩ := st
  · cases interactive with
    | false => rfl
    | true => rfl
  · rfl

theorem printed_asked (interactive : Bool) (st : Stage) :
    st.session.printed <+: (st.asked interactive).printed := by
  cases interactive with
  | false => exact List.prefix_rfl
  | true => exact printed_print st.session _

/-- A turn adds to what was printed with the question. -/
theorem printed_turn (hleft : (st.turn fuel interactive).session? = some s) :
    (st.asked interactive).printed <+: s.printed := by
  rw [← printed_hear]
  unfold Stage.turn at hleft
  by_cases hline : (st.hear interactive).line.isEmpty = true
  · rw [if_pos hline] at hleft
    cases hleft
    cases interactive with
    | false => exact List.prefix_rfl
    | true => exact printed_print _ _
  · rw [if_neg hline] at hleft
    exact printed_carryOut hleft

theorem printed_runLines {budget : Nat} (hrun : runLines fuel interactive budget st = some s) :
    st.session.printed <+: s.printed := by
  induction budget generalizing st with
  | zero =>
      cases hrun
      exact List.prefix_rfl
  | succ budget ih =>
      have hasked := printed_asked interactive st
      have hturned {s₁ : Session} (hleft : (st.turn fuel interactive).session? = some s₁) :
          st.session.printed <+: s₁.printed := hasked.trans (printed_turn hleft)
      rw [runLines] at hrun
      cases hturn : st.turn fuel interactive with
      | goesOn next =>
          rw [hturn] at hrun hturned
          exact (hturned rfl).trans (ih hrun)
      | finished session =>
          rw [hturn] at hrun hturned
          cases hrun
          exact hturned rfl
      | endless =>
          rw [hturn] at hrun
          cases hrun

/-- What the first turn prints is printed in the end. -/
theorem exists_session_of_runLines {budget : Nat}
    (hrun : runLines fuel interactive (budget + 1) st = some s) :
    ∃ s₁, (st.turn fuel interactive).session? = some s₁ ∧ s₁.printed <+: s.printed := by
  rw [runLines] at hrun
  cases hturn : st.turn fuel interactive with
  | goesOn next =>
      rw [hturn] at hrun
      exact ⟨next.session, rfl, printed_runLines hrun⟩
  | finished session =>
      rw [hturn] at hrun
      cases hrun
      exact ⟨s, rfl, List.prefix_rfl⟩
  | endless =>
      rw [hturn] at hrun
      cases hrun

theorem run_of_meetsEnd {h : Heard} (hend : h.meetsEnd fuel = true) :
    ∃ source r s₁, h.meaning = .source source ∧ isBlankText source = false ∧
      h.stage.session.run fuel source = some (r, s₁) ∧ h.afterRun fuel = s₁ := by
  unfold Heard.meetsEnd at hend
  cases hmeaning : h.meaning with
  | waiting pending => simp [hmeaning] at hend
  | command line => simp [hmeaning] at hend
  | source source =>
      rw [hmeaning] at hend
      dsimp only at hend
      split at hend
      next hrun =>
        simp only [Bool.and_eq_true, Bool.not_eq_true', beq_iff_eq] at hend
        refine ⟨source, _, _, rfl, hend.1, hrun, ?_⟩
        simp only [Heard.afterRun, hmeaning, hrun, Option.map_some, Option.getD_some]
      next => cases hend

/-- What was printed when a conversation waits is printed in the end, whatever is typed. -/
theorem printed_of_waits {budget : Nat} {more : Bytes} (hscript : st.script = none)
    (hwaits : st.attempt fuel = .waits s)
    (hrun : runLines fuel true (budget + 1) (st.extended more) = some s') :
    s.printed <+: s'.printed := by
  obtain ⟨s₁, hleft, hprinted⟩ := exists_session_of_runLines hrun
  refine List.IsPrefix.trans ?_ hprinted
  obtain ⟨-, hasked⟩ | ⟨hlast, hend, hran⟩ | ⟨-, -, htaken⟩ := attempt_cases fuel st
  · cases hasked.symm.trans hwaits
    have hturn : ((st.extended more).asked true).printed <+: s₁.printed := printed_turn hleft
    exact hturn
  · cases hran.symm.trans hwaits
    obtain ⟨source, r, s₂, hmeaning, hblank, hrun, hs₂⟩ := run_of_meetsEnd hend
    rw [turn_of_last hscript hlast more] at hleft
    have hmeaning' : { st.hear true with stage := (st.hear true).stage.extended more }.meaning =
      .source source := hmeaning
    rw [Heard.carryOut, hmeaning'] at hleft
    dsimp only at hleft
    cases hrun' : runSource ((st.hear true).stage.extended more).session fuel true source with
    | none =>
        rw [hrun'] at hleft
        cases hleft
    | some s₃ =>
        rw [hrun'] at hleft
        cases hleft
        obtain ⟨hblank', -⟩ | ⟨-, r', s₄, hrun'', hs₃⟩ := runSource_eq_some hrun'
        · cases hblank.symm.trans hblank'
        · have hlonger := Session.printed_run_extended hrun hrun''
          rw [hs₂]
          obtain rfl | ⟨t, rfl⟩ := hs₃
          · exact hlonger
          · exact hlonger.trans (printed_print s₄ t)
  · cases htaken.symm.trans hwaits

end Printed

/-! ## Whole conversations -/

/-- A user with lines to type. -/
structure User where
  typed : List Bytes
  /-- What the user has seen at each question. -/
  seen : List Bytes := []

/-- A user sees what has been printed and types the next line. -/
def User.answer (s : Session) : StateM User Bytes :=
  modifyGet fun u => (u.typed.headD [], { typed := u.typed.tail, seen := u.seen ++ [s.printed] })

section Conversation

variable {st : Stage} {user : User}

theorem converse_of_nil {session : Session} (hwaits : st.attempt fuel = .waits session)
    (hnil : user.typed = []) (budget : Nat) :
    (converse User.answer fuel (budget + 1) st).run user =
      (runLines fuel true (st.session.console.feed.bytes.length + 1) st,
        { typed := [], seen := user.seen ++ [session.printed] }) := by
  obtain ⟨typed, seen⟩ := user
  obtain rfl : typed = [] := hnil
  rw [converse, hwaits]
  rfl

theorem converse_of_cons {session : Session} (hwaits : st.attempt fuel = .waits session)
    {line : Bytes} {rest : List Bytes} (hline : line ≠ []) (htyped : user.typed = line :: rest)
    (budget : Nat) :
    (converse User.answer fuel (budget + 1) st).run user =
      (converse User.answer fuel budget (st.extended line)).run
        { typed := rest, seen := user.seen ++ [session.printed] } := by
  obtain ⟨typed, seen⟩ := user
  obtain rfl : typed = line :: rest := htyped
  obtain ⟨b, line, rfl⟩ := List.exists_cons_of_ne_nil hline
  rw [converse, hwaits]
  rfl

/-- A line that was typed takes one step. -/
theorem budget_of_cons {line : Bytes} {rest : List Bytes} {budget : Nat}
    (h : (line :: rest).length + (line :: rest).flatten.length +
      st.session.console.feed.bytes.length < budget + 1) :
    rest.length + rest.flatten.length + (st.extended line).session.console.feed.bytes.length <
      budget := by
  have hlonger : (st.extended line).session.console.feed.bytes.length =
      st.session.console.feed.bytes.length + line.length := List.length_append
  rw [List.flatten_cons, List.length_append, List.length_cons] at h
  omega

/-- A conversation comes to what the prompt comes to with all lines before it. The lines that were
not asked for are still to be read. -/
theorem converse_eq {budget : Nat} (hscript : st.script = none)
    (hlines : ∀ line ∈ user.typed, line ≠ [])
    (hbudget : user.typed.length + user.typed.flatten.length +
      st.session.console.feed.bytes.length < budget) :
    let ended := (converse User.answer fuel budget st).run user
    runLines fuel true (st.session.console.feed.bytes.length + user.typed.flatten.length + 1)
        (st.extended user.typed.flatten) =
      ended.1.map fun s => s.extended ended.2.typed.flatten := by
  induction budget generalizing st user with
  | zero => exact absurd hbudget (Nat.not_lt_zero _)
  | succ budget ih =>
      dsimp only at ih ⊢
      cases hattempt : st.attempt fuel with
      | waits session =>
          cases htyped : user.typed with
          | nil =>
              have hsame : (fun s : Session => s.extended []) = id := funext Session.extended_nil
              rw [converse_of_nil hattempt htyped]
              simp only [List.flatten_nil, List.length_nil, Nat.add_zero, st.extended_nil, hsame,
                Option.map_id_fun, id_eq]
          | cons line rest =>
              rw [htyped] at hlines hbudget
              obtain ⟨hline, hrest⟩ := List.forall_mem_cons.mp hlines
              rw [converse_of_cons hattempt hline htyped]
              have hlonger : (st.extended line).session.console.feed.bytes.length =
                  st.session.console.feed.bytes.length + line.length := List.length_append
              have hmore := @ih (st.extended line) ⟨rest, user.seen ++ [session.printed]⟩ hscript
                hrest (budget_of_cons hbudget)
              rw [← hmore, hlonger, st.extended_extended, List.flatten_cons, List.length_append,
                Nat.add_assoc _ line.length]
      | taken outcome =>
          have hturn := turn_extended hscript hattempt user.typed.flatten
          rw [converse, hattempt, runLines, hturn]
          cases outcome with
          | goesOn next =>
              obtain ⟨hscript', hlt⟩ := input_of_taken hscript hattempt
              have hfeed : (next.extended user.typed.flatten).feed.bytes.length =
                  next.session.console.feed.bytes.length + user.typed.flatten.length := by
                have hlonger : (next.extended user.typed.flatten).script = none := hscript'
                rw [Stage.feed_of_input hlonger]
                exact List.length_append
              refine Eq.trans ?_ (ih hscript' hlines (by omega))
              exact runLines_eq (by rw [hfeed]; omega) (by rw [hfeed]; omega)
          | finished session => rfl
          | endless => rfl

/-- What is shown in a conversation is the beginning of what is printed in the end. -/
theorem seen_of_converse {budget : Nat} (hscript : st.script = none)
    (hlines : ∀ line ∈ user.typed, line ≠ [])
    (hbudget : user.typed.length + user.typed.flatten.length +
      st.session.console.feed.bytes.length < budget)
    (hsome : ((converse User.answer fuel budget st).run user).1 = some s) :
    ∀ t ∈ ((converse User.answer fuel budget st).run user).2.seen,
      t ∈ user.seen ∨ t <+: s.printed := by
  induction budget generalizing st user with
  | zero => exact absurd hbudget (Nat.not_lt_zero _)
  | succ budget ih =>
      intro t ht
      cases hattempt : st.attempt fuel with
      | waits session =>
          cases htyped : user.typed with
          | nil =>
              rw [converse_of_nil hattempt htyped] at hsome ht
              obtain hold | hnew := List.mem_append.mp ht
              · exact .inl hold
              · obtain rfl := List.mem_singleton.mp hnew
                rw [← st.extended_nil] at hsome
                exact .inr (printed_of_waits hscript hattempt hsome)
          | cons line rest =>
              rw [htyped] at hlines hbudget
              obtain ⟨hline, hrest⟩ := List.forall_mem_cons.mp hlines
              rw [converse_of_cons hattempt hline htyped] at hsome ht
              have hscript' : (st.extended line).script = none := hscript
              have hbudget' := budget_of_cons hbudget
              obtain hshown | hprinted := ih hscript' hrest hbudget' hsome t ht
              · obtain hold | hnew := List.mem_append.mp hshown
                · exact .inl hold
                · obtain rfl := List.mem_singleton.mp hnew
                  have heq := @converse_eq fuel (st.extended line)
                    ⟨rest, user.seen ++ [session.printed]⟩ budget hscript' hrest hbudget'
                  dsimp only at heq
                  rw [hsome, st.extended_extended, Option.map_some] at heq
                  have hprinted := printed_of_waits hscript hattempt heq
                  exact .inr hprinted
              · exact .inr hprinted
      | taken outcome =>
          rw [converse, hattempt] at hsome ht
          cases outcome with
          | goesOn next =>
              obtain ⟨hscript', hlt⟩ := input_of_taken hscript hattempt
              exact ih hscript' hlines (by omega) hsome t ht
          | finished session => exact .inl ht
          | endless => exact .inl ht

end Conversation

/-- **A conversation is a run of the prompt.** Take a user who types any lines and then ends the
input. A conversation with that user comes to the session that a prompt comes to which has all these
lines as the input of its session from the start, except that lines for which the user was not asked
were not typed yet. Whatever the user sees at a question is the beginning of what is printed in the
end. -/
theorem conversation_is_run (s : Session) (fuel : Nat) {lines : List Bytes} {budget : Nat}
    (hlines : ∀ line ∈ lines, line ≠ [])
    (hbudget : lines.length + lines.flatten.length + s.console.feed.bytes.length < budget) :
    let ended := (talk User.answer fuel budget s).run { typed := lines }
    run (s.extended lines.flatten) fuel true none =
        ended.1.map (fun s' => s'.extended ended.2.typed.flatten) ∧
      ∀ s' ∈ ended.1, ∀ t ∈ ended.2.seen, t <+: s'.printed := by
  have hscript : ({ script := none, session := s.print banner } : Stage).script = none := rfl
  have heq := @converse_eq fuel _ { typed := lines } budget hscript hlines hbudget
  constructor
  · rw [talk, ← heq]
    show runLines fuel true ((s.console.feed.bytes ++ lines.flatten).length + 1) _ = _
    rw [List.length_append]
    rfl
  · intro s' hs' t ht
    obtain hold | hprinted := seen_of_converse hscript hlines hbudget hs' t ht
    · cases hold
    · exact hprinted

end Prompt

end Brainfuck
