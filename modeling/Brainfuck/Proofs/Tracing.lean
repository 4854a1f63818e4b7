import Brainfuck.Proofs.Closing
import Brainfuck.Proofs.Disks

/-!
# Tracing

Which sources are rejected, and with which error, does not depend on a trace. The trace of an
accepted source describes its code line by line, and nothing is written for a source that is
rejected.

## Main Definitions

* `Draft.untraced` — a draft without the lines of its trace
* `Feed.Accepted` — the sources that have a program
* `TraceSettings.Writable` — the trace can be written

## Main Results

* `Draft.run_untraced` — a trace changes nothing but the lines
* `Program.compile_of_rejected` — rejected sources
* `Program.compile_of_accepted`, `Program.compile_traced_of_accepted` — accepted sources
* `trace_describes_code` — the written trace

## Design Notes

`Feed.Accepted` speaks of the commands of a source and their depth only. Whether the trace can be
written is a question to the disk alone: the content of the file does not matter.
-/

namespace Brainfuck

/-- An instruction without the line of its trace. -/
def Instruction.untraced (x : Instruction) : Instruction :=
  { x with line := 0 }

/-! ## Drafts -/

namespace Draft

variable {traced : Bool} {d : Draft} {cs : List (Command × Position)}

/-- A draft without the lines of its trace. -/
def untraced (d : Draft) : Draft :=
  { d with code := d.code.map Instruction.untraced }

theorem empty_untraced : empty.untraced = empty := by
  simp [untraced, empty]

theorem put_untraced (traced : Bool) (d : Draft) (c : Command) (p : Position) :
    (d.put traced c p).untraced = d.untraced.put false c p := by
  simp [untraced, put, instruction, Instruction.untraced]

theorem enter_untraced (traced : Bool) (d : Draft) (p : Position) :
    (d.enter traced p).untraced = d.untraced.enter false p := by
  simp [untraced, enter, instruction, Instruction.untraced]

theorem leave_untraced (traced : Bool) (d : Draft) (p : Position) (g : Guard) (outer : List Guard) :
    (d.leave traced p g outer).untraced = d.untraced.leave false p g outer := by
  -- a guard gets its target, and the line it loses is another field
  have hmodify (code : Code) (k : Nat) (t : Int) :
      (code.modify k fun guard => { guard with target := t }).map Instruction.untraced =
        (code.map Instruction.untraced).modify k fun guard => { guard with target := t } := by
    apply Array.ext (by simp)
    intro i hi _
    simp only [Array.getElem_map, Array.getElem_modify]
    split <;> rfl
  simp [untraced, leave, instruction, hmodify, Instruction.untraced]

/-- A command has the same effect with and without a trace, apart from the lines. -/
theorem accept_untraced (traced : Bool) (d : Draft) (c : Command) (p : Position) :
    d.untraced.accept false c p = (d.accept traced c p).map untraced := by
  rcases c.primitive_or_bracket with ⟨a, rfl⟩ | rfl | rfl
  · rw [accept_primitive, accept_primitive, Except.map, put_untraced]
  · rw [accept_loopStart, accept_loopStart, Except.map, enter_untraced]
  · cases hguards : d.guards with
    | nil =>
        have hguards' : d.untraced.guards = [] := hguards
        rw [accept_loopEnd_nil traced p hguards, accept_loopEnd_nil false p hguards', Except.map]
    | cons g outer =>
        have hguards' : d.untraced.guards = g :: outer := hguards
        rw [accept_loopEnd_cons traced p hguards, accept_loopEnd_cons false p hguards', Except.map,
          leave_untraced]

/-- A trace changes nothing but the lines. -/
theorem run_untraced (traced : Bool) (d : Draft) (cs : List (Command × Position)) :
    d.untraced.run false cs = (d.run traced cs).map untraced := by
  induction cs generalizing d with
  | nil => rfl
  | cons x cs ih =>
      obtain ⟨c, p⟩ := x
      rw [run, run, accept_untraced traced]
      cases d.accept traced c p with
      | ok d' => exact ih d'
      | error e => rfl

theorem exists_run_of_untraced (h : empty.run false cs = .ok d) (traced : Bool) :
    ∃ d', empty.run traced cs = .ok d' ∧ d = d'.untraced := by
  have hrun := run_untraced traced empty cs
  rw [empty_untraced, h] at hrun
  cases htraced : empty.run traced cs with
  | ok d' =>
      rw [htraced] at hrun
      exact ⟨d', rfl, Except.ok.inj hrun⟩
  | error e =>
      rw [htraced] at hrun
      cases hrun

theorem run_eq_error_of_untraced {e : BracketError} (h : empty.run false cs = .error e)
    (traced : Bool) : empty.run traced cs = .error e := by
  have hrun := run_untraced traced empty cs
  rw [empty_untraced, h] at hrun
  cases htraced : empty.run traced cs with
  | ok d =>
      rw [htraced] at hrun
      cases hrun
  | error e' =>
      rw [htraced] at hrun
      cases hrun
      rfl

/-- The depth of a sequence that is taken says whether all guards are closed. -/
theorem depth_eq_zero_iff (h : empty.run traced cs = .ok d) :
    depth (cs.map Prod.fst) = 0 ↔ d.guards = [] := by
  have hlength := run_guards_length h
  simp only [empty, List.length_nil] at hlength
  rw [← List.length_eq_zero_iff]
  omega

end Draft

/-! ## Accepted and rejected sources -/

/-- A source that has a program: it can be read to its end, and no closing bracket lacks its
partner; with strict brackets no opening one does either. -/
structure Feed.Accepted (strict : Bool) (source : Feed) : Prop where
  readable : source.failure = none
  matched : ¬ Overclosed ((commands source.bytes).map Prod.fst)
  closed : strict = true → depth ((commands source.bytes).map Prod.fst) = 0

/-- An error of the source: a bracket without a partner, or a source that cannot be read. -/
def CompileError.IsRejection (e : CompileError) : Prop :=
  (∃ cause, e = .brackets cause) ∨ ∃ m, e = .unreadable m

namespace Builder

variable {strict : Bool} {source : Feed}

/-- A source that is not accepted is rejected with the same error whatever is recorded. -/
theorem run_of_rejected (h : ¬ source.Accepted strict) :
    ∃ e : CompileError, e.IsRejection ∧
      ∀ trace : Option Recorder, run strict (trace.map (·.describing #[])) source = .error e := by
  cases hrun : Draft.empty.run false (commands source.bytes) with
  | error e =>
      refine ⟨.brackets e, .inl ⟨e, rfl⟩, fun trace => ?_⟩
      exact run_eq_unmatched strict (Draft.run_eq_error_of_untraced hrun _)
  | ok d =>
      cases hfailure : source.failure with
      | some m =>
          refine ⟨.unreadable m, .inr ⟨m, rfl⟩, fun trace => ?_⟩
          obtain ⟨d', hd', -⟩ := Draft.exists_run_of_untraced hrun trace.isSome
          exact run_eq_unreadable strict hd' hfailure
      | none =>
          -- all commands were taken, so only an open guard under strict brackets is left
          have hmatched := (Draft.exists_run_iff false (commands source.bytes)).mp ⟨d, hrun⟩
          have hopen : ¬ (strict = true → d.guards = []) := by
            intro hclosed
            refine h ⟨hfailure, hmatched, fun hstrict => ?_⟩
            exact (Draft.depth_eq_zero_iff hrun).mpr (hclosed hstrict)
          obtain ⟨rfl, hguards⟩ := Classical.not_imp.mp hopen
          obtain ⟨g, outer, hcons⟩ := List.exists_cons_of_ne_nil hguards
          refine ⟨.brackets (.unclosed g.opened), .inl ⟨_, rfl⟩, fun trace => ?_⟩
          obtain ⟨d', hd', rfl⟩ := Draft.exists_run_of_untraced hrun trace.isSome
          exact run_eq_unclosed hd' hfailure hcons

/-- An accepted source is built, and everything is recorded. -/
theorem run_of_accepted (h : source.Accepted strict) (trace : Option Recorder) :
    ∃ b d, run strict (trace.map (·.describing #[])) source = .ok b ∧
      Draft.empty.run trace.isSome (closed (commands source.bytes)) = .ok d ∧
      b.arena.code = d.code ∧ b.recorder = trace.map (·.describing d.code) := by
  obtain ⟨d, hrun⟩ := (Draft.exists_run_iff trace.isSome _).mpr h.matched
  have hstrict : strict = true → d.guards = [] := by
    intro hstrict
    exact (Draft.depth_eq_zero_iff hrun).mp (h.closed hstrict)
  obtain ⟨b, d', hb, hd', -, hcode, hrecorder⟩ := run_eq_ok hrun h.readable hstrict
  exact ⟨b, d', hb, hd', hcode, hrecorder⟩

end Builder

namespace Program

variable {strict : Bool} {source : Feed}

/-- A source that is not accepted is rejected with the same error with and without a trace, and
the disk stays as it is. -/
theorem compile_of_rejected (h : ¬ source.Accepted strict) :
    ∃ e : CompileError, e.IsRejection ∧
      ∀ trace disk, compile { strict, trace } source disk = (.error e, disk) := by
  obtain ⟨e, he, hrun⟩ := Builder.run_of_rejected h
  refine ⟨e, he, fun trace disk => compile_eq_error ?_⟩
  rw [← recorder_describing]
  exact hrun _

/-- Without a trace an accepted source compiles, and the disk stays as it is. -/
theorem compile_of_accepted (h : source.Accepted strict) :
    ∃ d, Draft.empty.run false (closed (commands source.bytes)) = .ok d ∧
      ∀ disk, compile { strict } source disk = (.ok { code := d.code }, disk) := by
  obtain ⟨b, d, hb, hd, hcode, hrecorder⟩ := Builder.run_of_accepted h none
  refine ⟨d, hd, fun disk => ?_⟩
  simp only [Option.map_none] at hb hrecorder
  simp only [compile, Option.map_none, hb, hrecorder, hcode]

/-- With a trace an accepted source compiles if and only if its trace can be written. -/
theorem compile_traced_of_accepted (h : source.Accepted strict) (t : TraceSettings) :
    ∃ d, Draft.empty.run true (closed (commands source.bytes)) = .ok d ∧ ∀ disk disk',
      (∀ document, (Recorder.describing { dir := t.dir, id := t.id } d.code).flush disk =
          (.ok document, disk') →
        compile { strict, trace := some t } source disk =
          (.ok { code := d.code, document := some document }, disk')) ∧
      ∀ e, (Recorder.describing { dir := t.dir, id := t.id } d.code).flush disk =
          (.error e, disk') →
        compile { strict, trace := some t } source disk = (.error (.trace e), disk') := by
  obtain ⟨b, d, hb, hd, hcode, hrecorder⟩ :=
    Builder.run_of_accepted h (recorder { strict, trace := some t })
  refine ⟨d, hd, fun disk disk' => ?_⟩
  rw [recorder_describing] at hb
  simp only [recorder, Option.map_some] at hb hrecorder
  have hlines (r : Recorder) : (r.describing d.code).lines.size = d.code.size := by
    simp [Recorder.describing]
  constructor
  · intro document hflush
    simp [compile, hb, hrecorder, hcode, hlines, hflush]
  · intro e hflush
    simp [compile, hb, hrecorder, hcode, hlines, hflush]

end Program

/-! ## Written traces -/

namespace TraceSettings

/-- The file that a trace is written to. -/
def path (t : TraceSettings) : Bytes :=
  Recorder.path { dir := t.dir, id := t.id }

/-- The trace can be written: its directory, if it has one, can be made, and then a file at its
path. -/
def Writable (t : TraceSettings) (disk : Disk) : Prop :=
  ∃ disk₁ disk₂ content,
    (if t.dir.isEmpty then (.ok (), disk) else disk.makeDirectories t.dir) = (.ok (), disk₁) ∧
    disk₁.write t.path content = (.ok (), disk₂)

/-- A trace that can be written is written, and its file holds one line for each instruction. -/
theorem Writable.flush {t : TraceSettings} {disk : Disk} (h : t.Writable disk) (code : Code) :
    ∃ disk', (Recorder.describing { dir := t.dir, id := t.id } code).flush disk =
        (.ok { id := t.id, path := t.path, lines := code.size }, disk') ∧
      disk'.read t.path = .ok (code.toList.flatMap fun x => traceLine x.op x.position) := by
  obtain ⟨disk₁, disk₂, content, hmade, hwrite⟩ := h
  obtain ⟨disk', hdisk'⟩ :=
    Disk.exists_write hwrite (code.toList.flatMap fun x => traceLine x.op x.position)
  refine ⟨disk', ?_, Disk.read_of_write hdisk'⟩
  have htext : (Recorder.describing { dir := t.dir, id := t.id } code).text =
      code.toList.flatMap fun x => traceLine x.op x.position := by
    simp [Recorder.text, Recorder.describing, List.flatMap]
  have hpath : (Recorder.describing { dir := t.dir, id := t.id } code).path = t.path := rfl
  have hdir : (Recorder.describing { dir := t.dir, id := t.id } code).dir = t.dir := rfl
  simp only [Recorder.flush, hdir, hmade, hpath, htext, hdisk']
  simp [Recorder.describing]

end TraceSettings

namespace Program

variable {strict : Bool} {source : Feed} {t : TraceSettings} {disk : Disk}

/-- An accepted source whose trace can be written compiles, and the file describes the code. -/
theorem compile_of_writable (h : source.Accepted strict) (hwritable : t.Writable disk) :
    ∃ d disk', Draft.empty.run true (closed (commands source.bytes)) = .ok d ∧
      compile { strict, trace := some t } source disk =
        (.ok { code := d.code, document := some ⟨t.id, t.path, d.code.size⟩ }, disk') ∧
      disk'.read t.path = .ok (d.code.toList.flatMap fun x => traceLine x.op x.position) := by
  obtain ⟨d, hd, hcompile⟩ := compile_traced_of_accepted h t
  obtain ⟨disk', hflush, hread⟩ := hwritable.flush d.code
  exact ⟨d, disk', hd, (hcompile disk disk').1 _ hflush, hread⟩

/-- A compilation fails because the source is rejected or because the trace cannot be written. -/
theorem compile_error_cases {settings : CompileSettings} {e : CompileError}
    (h : (compile settings source disk).1 = .error e) :
    e.IsRejection ∨ ∃ cause, e = .trace cause := by
  obtain ⟨strict, trace⟩ := settings
  by_cases haccepted : source.Accepted strict
  · cases trace with
    | none =>
        obtain ⟨d, -, hcompile⟩ := compile_of_accepted haccepted
        rw [hcompile] at h
        cases h
    | some t =>
        obtain ⟨d, -, hcompile⟩ := compile_traced_of_accepted haccepted t
        rcases hflush : (Recorder.describing { dir := t.dir, id := t.id } d.code).flush disk with
          ⟨cause | document, disk'⟩
        · rw [(hcompile disk disk').2 cause hflush] at h
          cases h
          exact .inr ⟨cause, rfl⟩
        · rw [(hcompile disk disk').1 document hflush] at h
          cases h
  · obtain ⟨e', he', hcompile⟩ := compile_of_rejected haccepted
    rw [hcompile] at h
    cases h
    exact .inl he'

/-- The lines of a trace are always as many as the instructions. -/
theorem compile_ne_traceLength (settings : CompileSettings) (source : Feed) (disk : Disk)
    (lines instructions : Nat) :
    (compile settings source disk).1 ≠ .error (.traceLength lines instructions) := by
  intro h
  rcases compile_error_cases h with ⟨⟨cause, he⟩ | ⟨m, he⟩⟩ | ⟨cause, he⟩ <;> cases he

end Program

/-- The positions of the closed commands of a source, as text. -/
theorem Draft.map_toText_of_run {traced : Bool} {s : Bytes} {d : Draft}
    (h : empty.run traced (closed (commands s)) = .ok d) :
    d.code.toList.map (fun x => (x.op, x.position.toText)) =
      (commands s).map (fun (c, q) => (some c, signed q.line ++ 0x3A :: signed q.column)) ++
        List.replicate (depth ((commands s).map Prod.fst)).toNat
          (some .loopEnd, text "implicit") := by
  calc
    d.code.toList.map (fun x => (x.op, x.position.toText))
        = (listed d.code).map (fun (o, q) => (o, q.toText)) := by simp [listed]
    _ = (closed (commands s)).map (fun (c, q) => (some c, q.toText)) := by
      rw [run_listed h]
      simp [listed, empty]
    _ = _ := by
      rw [closed, List.map_append, List.map_replicate]
      refine congrArg (· ++ _) (List.map_congr_left ?_)
      rintro ⟨c, q⟩ hmem
      simp only [Position.toText, isKnown_of_mem_commands hmem, if_true]

/-- **The trace describes the code exactly.** No compilation finds that its trace has another number
of lines than its code has instructions. An accepted source whose trace can be written compiles;
every instruction knows its line, and the file has one line for each instruction, with the name of
its operation and its position: line and column for a command of the source, a word for an exit
that the source lacks. A source that is not accepted is rejected, and nothing is written. -/
theorem trace_describes_code (strict : Bool) (t : TraceSettings) (source : Feed) (disk : Disk) :
    (∀ settings lines instructions,
      (Program.compile settings source disk).1 ≠ .error (.traceLength lines instructions)) ∧
    (source.Accepted strict → t.Writable disk →
      ∃ p disk', Program.compile { strict, trace := some t } source disk = (.ok p, disk') ∧
        (∀ (i : Nat) x, p.code[i]? = some x → x.line = i + 1) ∧
        p.document = some { id := t.id, path := t.path, lines := p.code.size } ∧
        disk'.read t.path = .ok (p.code.toList.flatMap fun x =>
          text (operationName x.op) ++ 0x09 :: x.position.toText ++ [0x0A]) ∧
        p.code.toList.map (fun x => (x.op, x.position.toText)) =
          (commands source.bytes).map (fun (c, q) =>
            (some c, signed q.line ++ 0x3A :: signed q.column)) ++
          List.replicate (depth ((commands source.bytes).map Prod.fst)).toNat
            (some .loopEnd, text "implicit")) ∧
    (¬ source.Accepted strict →
      ∃ e : CompileError, e.IsRejection ∧
        Program.compile { strict, trace := some t } source disk = (.error e, disk)) := by
  refine ⟨fun settings => Program.compile_ne_traceLength settings source disk, ?_, ?_⟩
  · intro haccepted hwritable
    obtain ⟨d, disk', hd, hcompile, hread⟩ := Program.compile_of_writable haccepted hwritable
    refine ⟨_, disk', hcompile, fun i x hx => ?_, rfl, hread, Draft.map_toText_of_run hd⟩
    exact (Draft.run_lined (Draft.lined_empty true) hd).line_eq hx
  · intro hrejected
    obtain ⟨e, he, hcompile⟩ := Program.compile_of_rejected hrejected
    exact ⟨e, he, hcompile _ disk⟩

/-- The trace of a loop that is left open, below a directory that is made for it. -/
theorem trace_describes_code_of_open_loop :
    ∃ (t : TraceSettings) (source : Feed), source.bytes = [0x2B, 0x5B] ∧ t.dir ≠ [] ∧
      source.Accepted false ∧ t.Writable {} ∧
      ∃ p disk', Program.compile { trace := some t } source {} = (.ok p, disk') ∧
        disk'.read t.path =
          .ok (text "IncCell\t1:1\nLoopStart\t1:2\nLoopEnd\timplicit\n") := by
  have haccepted : Feed.Accepted false { bytes := [0x2B, 0x5B] } :=
    ⟨rfl, (Draft.exists_run_iff false _).mp ⟨_, rfl⟩, by simp⟩
  have hwritable : TraceSettings.Writable { dir := [0x74], id := [0x69] } {} :=
    ⟨_, _, [], rfl, rfl⟩
  refine ⟨_, _, rfl, by simp, haccepted, hwritable, ?_⟩
  obtain ⟨-, hwritten, -⟩ := trace_describes_code false { dir := [0x74], id := [0x69] }
    { bytes := [0x2B, 0x5B] } {}
  obtain ⟨p, disk', hcompile, -, -, hread, hlist⟩ := hwritten haccepted hwritable
  have hlines := congrArg (List.flatMap fun (o, q) =>
    text (operationName o) ++ 0x09 :: q ++ [0x0A]) hlist
  rw [List.flatMap_map] at hlines
  exact ⟨p, disk', hcompile, hread.trans (congrArg Except.ok (hlines.trans (by decide)))⟩

end Brainfuck
