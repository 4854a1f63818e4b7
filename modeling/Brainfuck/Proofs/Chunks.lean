import Brainfuck.Proofs.Dialogue
import Brainfuck.Proofs.Lines
import Mathlib.Data.List.Chain
import Mathlib.Data.List.DropRight
import Mathlib.Data.List.Infix

/-!
# Chunks of a script

The prompt cuts a script of its own, apart from the input of the programs, into commands and texts.
Where it cuts depends on the script alone: a line that starts with a colon is a command unless a
text waits for it, and a text ends with the first line that leaves no bracket open.

## Main Definitions

* `Prompt.assembled` — the text that lines make up
* `Prompt.Piece` — the lines of one command or of one text
* `Prompt.Piece.Fits`, `Prompt.Waits` — where a piece ends
* `Prompt.Succeeds` — what a line leaves for the next one

## Main Results

* `Prompt.classify_assembled` — what a line means behind lines that wait
* `Prompt.exists_pieces` — the lines of a dialogue, cut into pieces
* `Prompt.isChain_transcribe` — the tape and the waiting lines from one line to the next
* `prompt_cuts_script` — all of this for a whole script
-/

namespace Brainfuck

/-! ## Lines -/

/-- A feed that gives a line gives the first line of its bytes and keeps the others. The line ends
with a line feed unless the feed has stopped. -/
theorem Feed.line_cases (f : Feed) (h : f.line.1 ≠ []) :
    linesOf f.bytes = f.line.1 :: linesOf f.line.2.2.bytes ∧
      f.line.2.2.bytes.length < f.bytes.length ∧
      (f.line.2.1.isSome = false ↔ f.line.1.getLast? = some 0x0A) := by
  have hlength := length_line_lt h
  by_cases hmem : 0x0A ∈ f.bytes
  · obtain ⟨front, rest, hbytes, hfront⟩ := List.eq_append_cons_of_mem hmem
    rw [line_of_append hfront hbytes, hbytes] at hlength ⊢
    exact ⟨linesOf_append hfront rest, hlength, by simp⟩
  · rw [line_of_not_mem hmem] at h hlength ⊢
    refine ⟨linesOf_of_not_mem hmem h, hlength, ?_⟩
    simp only [Option.isSome_some, Bool.true_eq_false, false_iff]
    intro hlast
    exact hmem (List.mem_of_getLast? hlast)

namespace Prompt

/-- A line starts with a colon if and only if it does so without its line end. -/
theorem head?_trimLine (line : Bytes) :
    (trimLine line).head? = some 0x3A ↔ line.head? = some 0x3A := by
  obtain ⟨tail, htail⟩ : trimLine line <+: line := List.rdropWhile_prefix _ _
  constructor
  · intro h
    rw [← htail, List.head?_append, h]
    rfl
  · intro h
    have hne : trimLine line ≠ [] := by
      intro hnil
      have hcolon := (List.rdropWhile_eq_nil_iff.mp hnil) 0x3A (List.mem_of_head? h)
      simp at hcolon
    rwa [← htail, List.head?_append_of_ne_nil _ hne] at h

/-! ## Pieces -/

/-- The text that lines make up: each line without its line end, with one line feed instead. -/
def assembled (lines : List Bytes) : Bytes :=
  lines.flatMap fun line => trimLine line ++ [0x0A]

/-- Lines that start a text and still wait for its end. -/
structure Waits (lines : List Bytes) : Prop where
  plain : ∀ first ∈ lines.head?, first.head? ≠ some 0x3A
  isOpen : ∀ front, front <+: lines → front ≠ [] → 0 < bracketDepth (assembled front)

/-- Lines that make up one text. It ends where no bracket is open for the first time, or with a line
that has no line feed. -/
structure IsText (lines : List Bytes) : Prop where
  nonempty : lines ≠ []
  plain : ∀ first ∈ lines.head?, first.head? ≠ some 0x3A
  isOpen : ∀ front, front <+: lines → front ≠ [] → front ≠ lines →
    0 < bracketDepth (assembled front)
  closed : ∀ last ∈ lines.getLast?, last.getLast? = some 0x0A → bracketDepth (assembled lines) ≤ 0

/-- The lines of one command or of one text. -/
inductive Piece where
  | command (line : Bytes)
  | text (lines : List Bytes)
  deriving DecidableEq, Repr

namespace Piece

def lines : Piece → List Bytes
  | command line => [line]
  | text lines => lines

/-- What the last line of a piece means. -/
def meaning : Piece → Meaning
  | command line => .command (trimLine line)
  | text lines => .source (assembled lines)

/-- A piece begins and ends where it must. -/
def Fits : Piece → Prop
  | command line => line.head? = some 0x3A
  | text lines => IsText lines

end Piece

theorem waits_nil : Waits [] := by
  refine ⟨?_, ?_⟩
  · intro first hfirst
    cases hfirst
  · intro front hfront hne
    exact absurd (List.prefix_nil.mp hfront) hne

theorem assembled_concat (lines : List Bytes) (line : Bytes) :
    assembled (lines ++ [line]) = assembled lines ++ trimLine line ++ [0x0A] := by
  simp [assembled]

theorem isEmpty_assembled (lines : List Bytes) : (assembled lines).isEmpty = lines.isEmpty := by
  cases lines with
  | nil => rfl
  | cons line lines => simp [assembled]

/-- The lines that a line leaves waiting. -/
def Meaning.left : Meaning → Bytes
  | waiting pending => pending
  | command _ => []
  | source _ => []

/-- Whether a line ends a command or a text. -/
def Meaning.isWhole : Meaning → Bool
  | waiting _ => false
  | command _ => true
  | source _ => true

/-- Lines cut into pieces, given what each of them was heard to mean, and the lines that still wait
at their end. -/
structure IsCut (lines : List Bytes) (meanings : List Meaning) (pieces : List Piece)
    (waiting : List Bytes) : Prop where
  lines_eq : pieces.flatMap Piece.lines ++ waiting = lines
  meanings_eq : pieces.map Piece.meaning = meanings.filter Meaning.isWhole
  fits : ∀ piece ∈ pieces, piece.Fits
  waits : Waits waiting

section Cut

variable {held lines waiting : List Bytes} {line : Bytes} {last : Bool} {meanings : List Meaning}
  {pieces : List Piece}

theorem isCut_held (h : Waits held) : IsCut held [] [] held :=
  ⟨rfl, rfl, fun _ hmem => absurd hmem List.not_mem_nil, h⟩

theorem IsCut.wait (h : IsCut lines meanings pieces waiting) (pending : Bytes) :
    IsCut lines (.waiting pending :: meanings) pieces waiting :=
  ⟨h.lines_eq, h.meanings_eq, h.fits, h.waits⟩

theorem IsCut.cons (h : IsCut lines meanings pieces waiting) (piece : Piece) (hfits : piece.Fits) :
    IsCut (piece.lines ++ lines) (piece.meaning :: meanings) (piece :: pieces) waiting := by
  have hwhole : piece.meaning.isWhole = true := by
    cases piece with
    | command line => rfl
    | text lines => rfl
  refine ⟨?_, ?_, ?_, h.waits⟩
  · rw [List.flatMap_cons, List.append_assoc, h.lines_eq]
  · rw [List.map_cons, List.filter_cons_of_pos hwhole, h.meanings_eq]
  · exact List.forall_mem_cons.mpr ⟨hfits, h.fits⟩

/-- The first line of a text is not a command, also when another line is added. -/
theorem Waits.plain_concat (h : Waits held) (hplain : held = [] → line.head? ≠ some 0x3A) :
    ∀ first ∈ (held ++ [line]).head?, first.head? ≠ some 0x3A := by
  intro first hfirst
  cases held with
  | nil =>
      cases hfirst
      exact hplain rfl
  | cons first' held => exact h.plain first hfirst

theorem Waits.concat (h : Waits held) (hplain : held = [] → line.head? ≠ some 0x3A)
    (hdepth : 0 < bracketDepth (assembled (held ++ [line]))) : Waits (held ++ [line]) := by
  refine ⟨h.plain_concat hplain, ?_⟩
  intro front hfront hne
  obtain rfl | hprefix := List.prefix_concat_iff.mp hfront
  · exact hdepth
  · exact h.isOpen front hprefix hne

theorem Waits.isText (h : Waits held) (hplain : held = [] → line.head? ≠ some 0x3A)
    (hdepth : line.getLast? = some 0x0A → bracketDepth (assembled (held ++ [line])) ≤ 0) :
    IsText (held ++ [line]) := by
  refine ⟨by simp, h.plain_concat hplain, ?_, ?_⟩
  · intro front hfront hne hproper
    obtain heq | hprefix := List.prefix_concat_iff.mp hfront
    · exact absurd heq hproper
    · exact h.isOpen front hprefix hne
  · intro last hlast hend
    rw [List.getLast?_concat] at hlast
    cases hlast
    exact hdepth hend

/-- What a line means behind lines that wait for it. -/
theorem classify_assembled (held : List Bytes) (line : Bytes) (last : Bool) :
    classify (assembled held) (trimLine line) last =
      if held = [] ∧ line.head? = some 0x3A then .command (trimLine line)
      else if 0 < bracketDepth (assembled (held ++ [line])) ∧ last = false then
        .waiting (assembled (held ++ [line]))
      else .source (assembled (held ++ [line])) := by
  unfold classify
  simp only [isEmpty_assembled, assembled_concat, Bool.and_eq_true, List.isEmpty_iff, beq_iff_eq,
    head?_trimLine, decide_eq_true_eq, Bool.not_eq_true']

/-- **One line.** A line behind lines that wait leaves lines waiting again, and a cut of those and
the lines that follow is a cut of all of them. -/
theorem exists_cut_cons (hheld : Waits held)
    (hlast : last = false ↔ line.getLast? = some 0x0A) :
    ∃ held', Waits held' ∧
      (classify (assembled held) (trimLine line) last).left = assembled held' ∧
      ∀ lines meanings pieces waiting, IsCut (held' ++ lines) meanings pieces waiting →
        ∃ pieces', IsCut (held ++ line :: lines)
          (classify (assembled held) (trimLine line) last :: meanings) pieces' waiting := by
  rw [classify_assembled]
  by_cases hcommand : held = [] ∧ line.head? = some 0x3A
  · rw [if_pos hcommand]
    obtain ⟨rfl, hcolon⟩ := hcommand
    refine ⟨[], waits_nil, rfl, ?_⟩
    intro lines meanings pieces waiting hcut
    exact ⟨.command line :: pieces, hcut.cons (.command line) hcolon⟩
  have hplain : held = [] → line.head? ≠ some 0x3A := fun hnil hcolon => hcommand ⟨hnil, hcolon⟩
  have happend (lines : List Bytes) : held ++ line :: lines = held ++ [line] ++ lines := by simp
  rw [if_neg hcommand]
  by_cases hwaits : 0 < bracketDepth (assembled (held ++ [line])) ∧ last = false
  · rw [if_pos hwaits]
    refine ⟨held ++ [line], hheld.concat hplain hwaits.1, rfl, ?_⟩
    intro lines meanings pieces waiting hcut
    rw [happend]
    exact ⟨pieces, hcut.wait _⟩
  · rw [if_neg hwaits]
    have htext : IsText (held ++ [line]) := by
      refine hheld.isText hplain ?_
      intro hend
      exact Int.not_lt.mp fun hdepth => hwaits ⟨hdepth, hlast.mpr hend⟩
    refine ⟨[], waits_nil, rfl, ?_⟩
    intro lines meanings pieces waiting hcut
    rw [happend]
    exact ⟨.text (held ++ [line]) :: pieces, hcut.cons (.text _) htext⟩

end Cut

/-! ## Dialogues -/

/-- What a line leaves for the next one. A text leaves nothing waiting and the tape as its run has
left it, whether the run failed or not; a blank text does not run at all. -/
def Succeeds (fuel : Nat) (before next : Heard) : Prop :=
  match before.meaning with
  | .waiting pending =>
    next.stage.pending = pending ∧ next.stage.session.tape = before.stage.session.tape
  | .command line =>
    next.stage.pending = [] ∧ ∃ s, command before.stage.session line = .ok (false, s) ∧
      next.stage.session.tape = s.tape
  | .source source =>
    next.stage.pending = [] ∧
      if isBlankText source then next.stage.session.tape = before.stage.session.tape
      else ∃ r s, before.stage.session.run fuel source = some (r, s) ∧
        next.stage.session.tape = s.tape

/-- The prompt ends with the last line that it has heard. -/
def EndsWith (fuel : Nat) (interactive : Bool) (heard : List Heard) : Prop :=
  ∃ h ∈ heard.getLast?, ∀ next, h.carryOut fuel interactive ≠ .goesOn next

theorem EndsWith.cons {fuel : Nat} {interactive : Bool} {heard : List Heard}
    (hends : EndsWith fuel interactive heard) (h : Heard) :
    EndsWith fuel interactive (h :: heard) := by
  obtain ⟨last, hlast, hstops⟩ := hends
  refine ⟨last, ?_, hstops⟩
  rw [List.getLast?_cons, hlast]
  rfl

section Dialogue

variable {fuel budget : Nat} {interactive : Bool} {st next : Stage} {h : Heard}

theorem left_of_goesOn (hnext : h.carryOut fuel interactive = .goesOn next) :
    next.pending = h.meaning.left := by
  obtain ⟨pending, hmeaning, rfl⟩ | ⟨source, session, hmeaning, -, rfl⟩ |
    ⟨line, session, hmeaning, -, rfl⟩ := carryOut_eq_goesOn hnext
  · rw [hmeaning]
    rfl
  · rw [hmeaning]
    rfl
  · rw [hmeaning]
    rfl

/-- The prompt ends with whole commands and texts only. -/
theorem left_of_ends (hends : ∀ next, h.carryOut fuel interactive ≠ .goesOn next) :
    h.meaning.left = [] := by
  cases hmeaning : h.meaning with
  | waiting pending =>
      refine absurd ?_ (hends { h.stage with pending })
      rw [Heard.carryOut, hmeaning]
  | command line => rfl
  | source source => rfl

theorem tape_hear (interactive : Bool) (st : Stage) :
    (st.hear interactive).stage.session.tape = st.session.tape := by
  obtain ⟨pending, script, session⟩ := st
  cases script with
  | some feed =>
      cases interactive with
      | false => rfl
      | true => rfl
  | none =>
      cases interactive with
      | false => rfl
      | true => rfl

theorem tape_of_runSource {s s' : Session} {source : Bytes}
    (hrun : runSource s fuel interactive source = some s') :
    if isBlankText source then s'.tape = s.tape
    else ∃ r s₁, s.run fuel source = some (r, s₁) ∧ s'.tape = s₁.tape := by
  obtain ⟨hblank, rfl⟩ | ⟨hblank, r, s₁, hresult, hprinted⟩ := runSource_eq_some hrun
  · rw [if_pos hblank]
  · rw [if_neg (Bool.eq_false_iff.mp hblank)]
    refine ⟨r, s₁, hresult, ?_⟩
    obtain rfl | ⟨t, rfl⟩ := hprinted
    · rfl
    · rfl

/-- The next line finds what a line has left. -/
theorem succeeds_of_goesOn (hnext : h.carryOut fuel interactive = .goesOn next) :
    Succeeds fuel h (next.hear interactive) := by
  have htape := tape_hear interactive next
  have hpending : (next.hear interactive).stage.pending = next.pending := rfl
  unfold Succeeds
  obtain ⟨pending, hmeaning, rfl⟩ | ⟨source, session, hmeaning, hrun, rfl⟩ |
    ⟨line, session, hmeaning, hcommand, rfl⟩ := carryOut_eq_goesOn hnext
  · rw [hmeaning]
    exact ⟨hpending, htape⟩
  · rw [hmeaning]
    refine ⟨hpending, ?_⟩
    rw [htape]
    exact tape_of_runSource hrun
  · rw [hmeaning]
    exact ⟨hpending, session, hcommand, htape⟩

/-- From each line to the next one. -/
theorem isChain_transcribe (fuel : Nat) (interactive : Bool) (budget : Nat) (st : Stage) :
    (transcribe fuel interactive budget st).1.IsChain (Succeeds fuel) := by
  induction budget generalizing st with
  | zero => exact .nil
  | succ budget ih =>
      obtain ⟨-, hlog⟩ | ⟨-, next, hnext, hlog⟩ | ⟨-, -, hlog⟩ :=
        transcribe_cases fuel interactive budget st
      · rw [hlog]
        exact .nil
      · rw [hlog, List.isChain_cons]
        refine ⟨?_, ih next⟩
        intro h hhead
        rw [head?_transcribe fuel interactive budget next h hhead]
        exact succeeds_of_goesOn hnext
      · rw [hlog]
        exact .singleton _

/-- A line that starts with a colon is a command if and only if no text waits for it. -/
theorem exists_command_iff (h : Heard) :
    (∃ line, h.meaning = .command line) ↔ h.line.head? = some 0x3A ∧ h.stage.pending = [] := by
  unfold Heard.meaning classify
  simp only [Bool.and_eq_true, List.isEmpty_iff, beq_iff_eq, head?_trimLine]
  by_cases hcommand : h.stage.pending = [] ∧ h.line.head? = some 0x3A
  · rw [if_pos hcommand]
    exact ⟨fun _ => hcommand.symm, fun _ => ⟨_, rfl⟩⟩
  · rw [if_neg hcommand]
    refine ⟨?_, fun hboth => absurd hboth.symm hcommand⟩
    rintro ⟨line, hline⟩
    split at hline
    · cases hline
    · cases hline

/-- The lines that are heard are the first lines of the script. -/
theorem lines_transcribe (fuel : Nat) (interactive : Bool) (budget : Nat) (pending : Bytes)
    (feed : Feed) (s : Session) :
    (transcribe fuel interactive budget { pending, script := some feed, session := s }).1.map
      Heard.line <+: linesOf feed.bytes := by
  induction budget generalizing pending feed s with
  | zero => exact List.nil_prefix
  | succ budget ih =>
      obtain ⟨-, hlog⟩ | ⟨hline, next, hnext, hlog⟩ | ⟨hline, -, hlog⟩ :=
        transcribe_cases fuel interactive budget { pending, script := some feed, session := s }
      · rw [hlog]
        exact List.nil_prefix
      · obtain ⟨hlines, -, -⟩ := feed.line_cases hline
        have hscript := script_of_goesOn hnext
        obtain ⟨pending', script', session'⟩ := next
        obtain rfl : script' = some feed.line.2.2 := hscript
        rw [hlog, hlines, List.map_cons]
        exact (List.prefix_cons_inj _).mpr (ih pending' feed.line.2.2 session')
      · obtain ⟨hlines, -, -⟩ := feed.line_cases hline
        rw [hlog, hlines, List.map_cons]
        exact (List.prefix_cons_inj _).mpr List.nil_prefix

/-- The lines of a dialogue, cut into pieces. The prompt hears all lines of the script or ends with
a whole piece. -/
theorem exists_pieces (fuel : Nat) (interactive : Bool) {budget : Nat} {held : List Bytes}
    (hheld : Waits held) (feed : Feed) (hbudget : feed.bytes.length < budget) (s : Session) :
    let heard := (transcribe fuel interactive budget
      { pending := assembled held, script := some feed, session := s }).1
    ∃ pieces waiting,
      IsCut (held ++ heard.map Heard.line) (heard.map Heard.meaning) pieces waiting ∧
      (heard.map Heard.line = linesOf feed.bytes ∨
        waiting = [] ∧ EndsWith fuel interactive heard) := by
  induction budget generalizing held feed s with
  | zero => exact absurd hbudget (Nat.not_lt_zero _)
  | succ budget ih =>
      intro heard
      obtain ⟨hline, hlog⟩ | ⟨hline, next, hnext, hlog⟩ | ⟨hline, hends, hlog⟩ :=
        transcribe_cases fuel interactive budget
          { pending := assembled held, script := some feed, session := s }
      · have hbytes := Feed.bytes_of_line_eq_nil (f := feed) hline
        have hheard : heard = [] := hlog
        rw [hheard, hbytes, List.map_nil, List.append_nil]
        exact ⟨[], held, isCut_held hheld, .inl rfl⟩
      · obtain ⟨hlines, hlength, hlast⟩ := feed.line_cases hline
        obtain ⟨held', hheld', hleft, hcut⟩ := exists_cut_cons hheld hlast
        have hpending := left_of_goesOn hnext
        have hscript := script_of_goesOn hnext
        obtain ⟨pending', script', session'⟩ := next
        obtain rfl : script' = some feed.line.2.2 := hscript
        obtain rfl : pending' = assembled held' := hpending.trans hleft
        obtain ⟨pieces, waiting, hpieces, hrest⟩ :=
          ih hheld' feed.line.2.2 (by omega) session'
        obtain ⟨pieces', hpieces'⟩ := hcut _ _ _ _ hpieces
        have hheard : heard = _ :: _ := hlog
        rw [hheard, hlines, List.map_cons, List.map_cons]
        refine ⟨pieces', waiting, hpieces', ?_⟩
        obtain hall | ⟨hwaiting, hends⟩ := hrest
        · exact .inl (congrArg _ hall)
        · exact .inr ⟨hwaiting, hends.cons _⟩
      · obtain ⟨hlines, -, hlast⟩ := feed.line_cases hline
        obtain ⟨held', hheld', hleft, hcut⟩ := exists_cut_cons hheld hlast
        obtain rfl : held' = [] := by
          rw [← List.isEmpty_iff, ← isEmpty_assembled, ← hleft, List.isEmpty_iff]
          exact left_of_ends hends
        obtain ⟨pieces, hpieces⟩ := hcut [] [] [] [] (isCut_held waits_nil)
        have hheard : heard = [_] := hlog
        rw [hheard, List.map_singleton, List.map_singleton]
        exact ⟨pieces, [], hpieces, .inr ⟨rfl, _, rfl, hends⟩⟩

end Dialogue

end Prompt

open Prompt in
/-- **The prompt cuts a script into commands and texts.** Take a script of its own and any session.
The lines that the prompt hears are the first lines of the script, and they are cut into pieces in
their order, each line in one piece, except lines that wait behind an open bracket at the end of the
script. The pieces are the commands and texts that are carried out. The prompt hears all lines,
unless it ends with a command, or with a program that does not end. A line is a command if and only
if it starts with a colon and no text waits for it. Every line finds what the line before it has
left: after a text, whether it failed or not, nothing waits and the tape is as the run has left
it. -/
theorem prompt_cuts_script (s : Session) (fuel : Nat) (interactive : Bool) (script : Feed) :
    let heard := (dialogue s fuel interactive (some script)).1
    (dialogue s fuel interactive (some script)).2 = Prompt.run s fuel interactive (some script) ∧
    (linesOf script.bytes).flatten = script.bytes ∧
    heard.map Heard.line <+: linesOf script.bytes ∧
    (∃ pieces waiting, IsCut (heard.map Heard.line) (heard.map Heard.meaning) pieces waiting ∧
      (heard.map Heard.line = linesOf script.bytes ∨
        waiting = [] ∧ EndsWith fuel interactive heard)) ∧
    (∀ h ∈ heard,
      (∃ line, h.meaning = .command line) ↔ h.line.head? = some 0x3A ∧ h.stage.pending = []) ∧
    (∀ h ∈ heard.head?, h.stage.pending = [] ∧ h.stage.session.tape = s.tape) ∧
    heard.IsChain (Succeeds fuel) := by
  intro heard
  refine ⟨dialogue_snd s fuel interactive (some script), flatten_linesOf script.bytes,
    lines_transcribe .., exists_pieces fuel interactive waits_nil script (Nat.lt_succ_self _) _,
    fun h _ => exists_command_iff h, ?_, isChain_transcribe ..⟩
  intro h hhead
  rw [head?_transcribe _ _ _ _ h hhead, tape_hear]
  refine ⟨rfl, ?_⟩
  cases interactive with
  | false => rfl
  | true => rfl

open Prompt in
example :
    let s : Session :=
      { settings := {}, tape := #[0], console := { feed := .empty }, store := .absent, host := {} }
    (dialogue s 10 false (some { bytes := text "[\n:]\r\n:reset\n]\n" })).1.map Heard.meaning =
      [.waiting (text "[\n"), .source (text "[\n:]\n"), .command (text ":reset"),
        .source (text "]\n")] := by
  decide

end Brainfuck
