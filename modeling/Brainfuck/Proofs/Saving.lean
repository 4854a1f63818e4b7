import Brainfuck.CommandLine
import Brainfuck.Proofs.Adoption
import Brainfuck.Proofs.Consoles
import Brainfuck.Proofs.Listing

/-!
# Saving a program and running it later

A program that is saved by one invocation and run by name in a later one does what it would have
done at once: it writes the same bytes and ends with the same result. This holds if the engine takes
the name of the database for a file that can be written, and as long as saving the program changes
nothing about the configuration.

## Main Definitions

* `Flags.Plain` — flags that choose no program
* `Flags.saving`, `Flags.running`, `Flags.executing` — the flags of three invocations
* `Outcome.shown` — what an invocation shows: its result and its output
* `Outcome.LacksTrace` — an invocation that could not write a trace

## Main Results

* `Session.compile_again` — a source has the same code in every session with the same settings
* `Session.save_eq_ok` — a saved program is found in the database
* `Invocation.perform_shown` — what a program shows depends on its code, the tape and the console
* `saved_program_runs` — saving and running later shows the same as running at once
* `saved_program_lost` — where it does not

## Design Notes

The later invocation resolves all paths anew, on a disk on which the database has changed and a
trace may have been written. That it finds the database there is a matter of `Disk.Spares`.
-/

namespace Brainfuck

/-! ## Compiling again -/

/-- A source has the same code with every trace that can be written, on every disk. -/
theorem Program.compile_again {strict : Bool} {trace : Option TraceSettings} {source : Feed}
    {disk : Disk} {p : Program} (h : (compile { strict, trace } source disk).1 = .ok p)
    (trace' : Option TraceSettings) (htrace : trace'.isSome = trace.isSome) (disk' : Disk) :
    (∃ p', (compile { strict, trace := trace' } source disk').1 = .ok p' ∧ p'.code = p.code) ∨
      (trace.isSome = true ∧
        ∃ e, (compile { strict, trace := trace' } source disk').1 = .error (.trace e)) := by
  by_cases haccepted : source.Accepted strict
  · cases trace with
    | none =>
        cases Option.isSome_eq_false_iff.mp htrace |> Option.isNone_iff_eq_none.mp
        obtain ⟨d, -, hcompile⟩ := compile_of_accepted haccepted
        rw [hcompile] at h
        cases h
        exact .inl ⟨_, congrArg Prod.fst (hcompile disk'), rfl⟩
    | some t =>
        obtain ⟨t', rfl⟩ := Option.isSome_iff_exists.mp htrace
        obtain ⟨d, hd, hcompile⟩ := compile_traced_of_accepted haccepted t
        obtain ⟨d', hd', hcompile'⟩ := compile_traced_of_accepted haccepted t'
        cases hd.symm.trans hd'
        have hcode : p.code = d.code := by
          rcases hflush : (Recorder.describing { dir := t.dir, id := t.id } d.code).flush disk with
            ⟨e | document, disk₁⟩
          · rw [(hcompile disk disk₁).2 e hflush] at h
            cases h
          · rw [(hcompile disk disk₁).1 document hflush] at h
            cases h
            rfl
        rcases hflush : (Recorder.describing { dir := t'.dir, id := t'.id } d.code).flush disk' with
          ⟨e | document, disk₁⟩
        · exact .inr ⟨rfl, e, congrArg Prod.fst ((hcompile' disk' disk₁).2 e hflush)⟩
        · exact .inl ⟨_, congrArg Prod.fst ((hcompile' disk' disk₁).1 document hflush), hcode.symm⟩
  · obtain ⟨e, -, hcompile⟩ := compile_of_rejected haccepted
    rw [hcompile] at h
    cases h

namespace Session

variable {s s' : Session} {source name path : Bytes} {p : Program}

/-- A source has the same code in every session with the same settings, unless a trace that was
asked for cannot be written. -/
theorem compile_again (h : (s.compile source).1 = .ok p) (hsettings : s'.settings = s.settings) :
    (∃ p', (s'.compile source).1 = .ok p' ∧ p'.code = p.code) ∨
      (s.settings.traceDir ≠ [] ∧ ∃ e, (s'.compile source).1 = .error (.trace e)) := by
  have hfst (t : Session) := congrArg Prod.fst (program_compile t source)
  dsimp only at hfst
  rw [hfst] at h
  rw [hfst, hsettings]
  by_cases hdir : s.settings.traceDir.isEmpty = true
  · rw [if_pos hdir] at h ⊢
    obtain hsame | ⟨hsome, -⟩ := Program.compile_again h none rfl s'.host.disk
    · exact .inl hsame
    · cases hsome
  · rw [if_neg hdir] at h ⊢
    obtain hsame | ⟨-, hfails⟩ := Program.compile_again h
      (some { dir := s.settings.traceDir, id := uuid s'.host.nextId }) (by simp) s'.host.disk
    · exact .inl hsame
    · exact .inr ⟨by simpa using hdir, hfails⟩

/-! ## Saving -/

/-- What a session starts with. Whether it can start is a matter of its settings. -/
theorem start_eq_ok {settings : Settings} {store : StoreAccess} {console : Console} {host : Host}
    (h : start settings store console host = .ok s) :
    s.settings = settings ∧ s.store = store ∧ s.console = console ∧ s.host = host ∧
      ∀ store' console' host', start settings store' console' host' =
        .ok { s with store := store', console := console', host := host' } := by
  unfold start at h ⊢
  cases hsize : checkLength 4
    (if 0 < settings.tapeSize then settings.tapeSize else defaultTapeSize) with
  | error fault =>
      rw [hsize] at h
      cases h
  | ok size =>
      rw [hsize] at h
      cases h
      exact ⟨rfl, rfl, rfl, rfl, fun _ _ _ => rfl⟩

/-- A session has the settings and the tape of another one, and a console of its own. -/
structure StartsLike (s' s : Session) (feed : Feed) (sink : Sink) : Prop where
  settings_eq : s'.settings = s.settings
  tape_eq : s'.tape = s.tape
  console_eq : s'.console = { feed, sink }

/-- A program that compiles is saved in the database of the session, if no trace is written over
that. -/
theorem save_eq_ok (hstore : s.store = .present (.database path true)) (hapart : s.TracesApart)
    {l : Location} {db : Database} (hdb : s.host.disk.database path = .ok (l, db))
    (hadopted : db.Adopted) (hcompile : (s.compile source).1 = .ok p) (name : Bytes) :
    ∃ s' db', s.save name source = (.ok (), s') ∧ s'.console = s.console ∧
      s'.host.disk.database path = .ok (l, db') ∧ db'.Adopted ∧
      db'.get? name = .ok (some source) := by
  have hspares : Disk.Spares l s.host.disk (s.compile source).2.host.disk := by
    refine spares_compile source ?_
    intro hdir d bits hworking
    exact hapart path true hstore hdir s.host.disk d l bits rfl hworking
      (Disk.database_eq_ok hdb).1
  have hfound := hspares.database hdb hadopted.ne_empty
  obtain ⟨db', hput, hadopted', hget⟩ := hadopted.put name source
  have hsession : s.compile source = (.ok p, (s.compile source).2) := by rw [← hcompile]
  refine ⟨{ (s.compile source).2 with
    store := .present (.database path true)
    host.disk := (s.compile source).2.host.disk.set l (.database db') }, db', ?_, rfl,
    Disk.database_set hfound db', hadopted', hget⟩
  rw [save, hstore]
  dsimp only
  rw [hsession]
  simp only [changeStore, Store.put, Store.change, hfound, hput]
  rfl

/-- A program in the database is loaded, whatever samples there are. -/
theorem load_eq_ok (hstore : s.store = .present (.database path true)) {l : Location}
    {db : Database} (hdb : s.host.disk.database path = .ok (l, db))
    (hget : db.get? name = .ok (some source)) : s.load name = .ok source := by
  have hholds : Store.Holds (.database path true) s.host.disk db := .database hdb
  rw [load, hstore]
  dsimp only
  rw [Store.get?, hholds.query, hget]
  rfl

end Session

/-! ## Invocations -/

namespace Flags

/-- Flags that choose no program and nothing but running it. -/
structure Plain (f : Flags) : Prop where
  file_eq : f.file = []
  source_eq : f.source = []
  sample_eq : f.sample = []
  save_eq : f.save = []
  run_eq : f.run = []
  list_eq : f.list = false
  bench_eq : f.bench = 0
  step_eq : f.step = false
  disasm_eq : f.disasm = false

/-- The flags that save a source under a name. -/
def saving (f : Flags) (source name : Bytes) : Flags :=
  { f with source, save := name }

/-- The flags that run the program of a name. -/
def running (f : Flags) (name : Bytes) : Flags :=
  { f with run := name }

/-- The flags that run a source. -/
def executing (f : Flags) (source : Bytes) : Flags :=
  { f with source }

end Flags

/-- What an invocation shows: its result and its output. -/
def Outcome.shown (o : Outcome) : Except CommandError Unit × Sink :=
  (o.result, o.output)

/-- The invocation failed because it could not write a trace. -/
def Outcome.LacksTrace (o : Outcome) : Prop :=
  ∃ e, o.result = .error (.session (.compile (.trace e)))

namespace Invocation

variable {s s' : Session} {f : Flags} {source name : Bytes} {p : Program}

/-- What a program shows that runs on a tape and a console. -/
def shownBy (fuel : Nat) (code : Code) (tape : Tape) (console : Console) :
    Option (Except CommandError Unit × Sink) :=
  (execute Console.channel code fuel tape console).map fun (r, m) =>
    let (result, console) := Session.settle (r.mapError .run) m.world
    (runResult result, console.close.2.sink)

/-- A program that compiles shows what its code does on the tape and the console of the session. -/
theorem perform_shown (hcompile : (s.compile source).1 = .ok p) (hstep : f.step = false)
    (hdisasm : f.disasm = false) (fuel : Nat) :
    (perform { session := s } fuel f source).map Outcome.shown =
      shownBy fuel p.code s.tape s.console := by
  have hsession : s.compile source = (.ok p, (s.compile source).2) := by rw [← hcompile]
  have htape : (s.compile source).2.tape = s.tape := rfl
  have hconsole : (s.compile source).2.console = s.console := rfl
  rw [perform, hsession]
  simp only [hstep, hdisasm, Bool.false_eq_true, if_false, tell, Session.execute_eq, htape,
    hconsole, shownBy]
  cases execute Console.channel p.code fuel s.tape s.console with
  | none => rfl
  | some result => rfl

/-- A source that does not compile shows why. -/
theorem perform_of_error {e : CompileError} (hcompile : (s.compile source).1 = .error e)
    (f : Flags) (fuel : Nat) :
    ∃ o, perform { session := s } fuel f source = some o ∧
      o.result = .error (.session (.compile e)) := by
  have hsession : s.compile source = (.error e, (s.compile source).2) := by rw [← hcompile]
  rw [perform, hsession]
  exact ⟨_, rfl, rfl⟩

/-- Where a source has a program, it shows the same in all sessions that start alike, unless a trace
that was asked for cannot be written. -/
theorem perform_agree {s₁ s₂ : Session} {feed : Feed} {sink : Sink} {f₁ f₂ : Flags}
    (hcompile : (s.compile source).1 = .ok p) (h₁ : s₁.StartsLike s feed sink)
    (h₂ : s₂.StartsLike s feed sink) (hstep₁ : f₁.step = false) (hdisasm₁ : f₁.disasm = false)
    (hstep₂ : f₂.step = false) (hdisasm₂ : f₂.disasm = false) (fuel : Nat) :
    (perform { session := s₁ } fuel f₁ source).map Outcome.shown =
        (perform { session := s₂ } fuel f₂ source).map Outcome.shown ∨
      s.settings.traceDir ≠ [] ∧ ∃ o, (perform { session := s₁ } fuel f₁ source = some o ∨
        perform { session := s₂ } fuel f₂ source = some o) ∧ o.LacksTrace := by
  obtain ⟨p₁, hp₁, hcode₁⟩ | ⟨hdir, e, he⟩ := Session.compile_again hcompile h₁.settings_eq
  · obtain ⟨p₂, hp₂, hcode₂⟩ | ⟨hdir, e, he⟩ := Session.compile_again hcompile h₂.settings_eq
    · left
      rw [perform_shown hp₁ hstep₁ hdisasm₁, perform_shown hp₂ hstep₂ hdisasm₂, hcode₁, hcode₂,
        h₁.tape_eq, h₂.tape_eq, h₁.console_eq, h₂.console_eq]
    · obtain ⟨o, ho, hresult⟩ := perform_of_error he f₂ fuel
      exact .inr ⟨hdir, o, .inr ho, e, hresult⟩
  · obtain ⟨o, ho, hresult⟩ := perform_of_error he f₁ fuel
    exact .inr ⟨hdir, o, .inl ho, e, hresult⟩

theorem runResult_eq_error {r : Except SessionError Unit} {e : SessionError}
    (h : runResult r = .error (.session e)) : e.isEndOfInput = false := by
  unfold runResult at h
  split at h
  · cases h
  · split at h
    · cases h
    next hother =>
      cases h
      exact Bool.eq_false_iff.mpr hother

/-- The end of the input is no error of an invocation. -/
theorem perform_ne_endOfInput {fuel : Nat} {o : Outcome} {e : SessionError}
    (h : perform { session := s } fuel f source = some o) (hstep : f.step = false)
    (hdisasm : f.disasm = false) (he : o.result = .error (.session e)) :
    e.isEndOfInput = false := by
  cases hcompile : (s.compile source).1 with
  | error cause =>
      obtain ⟨o', ho', hresult⟩ := perform_of_error hcompile f fuel
      cases h.symm.trans ho'
      cases hresult.symm.trans he
      rfl
  | ok p =>
      have hshown := perform_shown hcompile hstep hdisasm fuel
      rw [h, Option.map_some] at hshown
      obtain ⟨result, -, hresult⟩ := Option.map_eq_some_iff.mp hshown.symm
      exact runResult_eq_error ((congrArg Prod.fst hresult).trans he)

theorem proceed_saving (hf : f.Plain) (hsource : source ≠ []) (hname : name ≠ [])
    (hsave : s.save name source = (.ok (), s')) (fuel : Nat) (config : Config) :
    proceed { session := s } fuel (f.saving source name) config =
      some (finish (tell { session := s' } (text "saved " ++ name ++ text "\n")) (.ok ())) := by
  simp [proceed, choose, keep, onlySaves, tell, Flags.saving, hf.file_eq, hf.list_eq, hf.bench_eq,
    hf.step_eq, hf.disasm_eq, hsource, hname, hsave]

theorem proceed_executing (hf : f.Plain) (hsource : source ≠ []) (fuel : Nat) (config : Config) :
    proceed { session := s } fuel (f.executing source) config =
      perform { session := s } fuel (f.executing source) source := by
  simp [proceed, choose, keep, onlySaves, Flags.executing, hf.file_eq, hf.list_eq, hf.bench_eq,
    hf.save_eq, hsource]

theorem proceed_running (hf : f.Plain) (hname : name ≠ []) (hload : s.load name = .ok source)
    (fuel : Nat) (config : Config) :
    proceed { session := s } fuel (f.running name) config =
      perform { session := s } fuel (f.running name) source := by
  simp [proceed, choose, keep, onlySaves, Flags.running, hf.file_eq, hf.source_eq, hf.sample_eq,
    hf.list_eq, hf.bench_eq, hf.save_eq, hname, hload, Except.mapError, Except.map]

end Invocation

namespace CommandLine

variable {engine : Engine} {path : Bytes} {f : Flags} {input : Feed} {output : Sink}
  {host host' : Host} {config : Config} {s : Session}

/-- The settings of a session by a configuration. -/
def settingsOf (config : Config) : Settings :=
  { tapeSize := config.tapeSize, strict := config.strictBrackets, traceDir := config.traceDir }

/-- How a session was opened. -/
theorem openSession_eq_ok (h : openSession engine f input output host = (.ok (config, s), host')) :
    configure f host.disk = .ok config ∧ ∃ store disk,
      openStore engine f config host.disk = (.ok store, disk) ∧
      Session.start (settingsOf config) store { feed := input, sink := output }
        { host with disk } = .ok s := by
  unfold openSession at h
  split at h
  · cases h
  next config' hconfig =>
    split at h
    · cases h
    next store disk hstore =>
      dsimp only at h
      split at h
      · cases h
      next s' hstart =>
        cases h
        exact ⟨hconfig, store, disk, hstore, hstart⟩

/-- What is needed to open a session. -/
theorem openSession_of_start {store : StoreAccess} {disk : Disk}
    (hconfig : configure f host.disk = .ok config)
    (hstore : openStore engine f config host.disk = (.ok store, disk))
    (hstart : Session.start (settingsOf config) store { feed := input, sink := output }
      { host with disk } = .ok s) :
    openSession engine f input output host = (.ok (config, s), { host with disk }) := by
  have hstart' := hstart
  unfold settingsOf at hstart'
  simp only [openSession, hconfig, hstore, hstart']

theorem run_of_open (h : openSession engine f input output host = (.ok (config, s), host'))
    (fuel : Nat) :
    run engine fuel f input output host = Invocation.proceed { session := s } fuel f config := by
  rw [run, h]

/-- The configuration does not depend on the choice of a program. -/
theorem configure_congr {g : Flags} {disk disk' : Disk} (happly : f.apply = g.apply)
    (hload : Config.load f.config disk = Config.load g.config disk') :
    configure f disk = configure g disk' := by
  simp only [configure, hload, happly]

/-- The store that is opened to save a program is the database of the configuration. -/
theorem openStore_saving {source name : Bytes} (hname : name ≠ [])
    (hfile : engine.resolve config.db = .file path .readWrite) {disk disk' : Disk}
    {store : StoreAccess}
    (h : openStore engine (f.saving source name) config disk = (.ok store, disk')) :
    store = .present (.database path true) ∧
      Store.openDatabase engine config.db disk = (.ok (.database path true), disk') ∧
      ∃ l db, disk'.database path = .ok (l, db) ∧ db.Adopted := by
  have hneeds : (f.saving source name).needsStore = true := by
    simp [Flags.needsStore, Flags.saving, hname]
  rw [openStore, if_pos hneeds] at h
  rcases hopen : Store.openDatabase engine config.db disk with ⟨e | opened, disk₁⟩
  · rw [hopen] at h
    cases h
  · rw [hopen] at h
    cases h
    obtain ⟨rfl, hfound⟩ := Store.openDatabase_eq_ok hfile hopen
    exact ⟨rfl, rfl, hfound⟩

variable {console : Console} {store : StoreAccess} {source name : Bytes}

/-- A program in the database of the configuration can be run by its name. -/
theorem exists_session_running (hname : name ≠ [])
    (hfile : engine.resolve config.db = .file path .readWrite)
    (hstart : Session.start (settingsOf config) store console host' = .ok s)
    (hconfig : configure (f.running name) host.disk = .ok config) {l : Location} {db : Database}
    (hdb : host.disk.database path = .ok (l, db)) (hadopted : db.Adopted)
    (hget : db.get? name = .ok (some source)) (feed : Feed) (sink : Sink) :
    ∃ s' host₁, openSession engine (f.running name) feed sink host = (.ok (config, s'), host₁) ∧
      s'.StartsLike s feed sink ∧ s'.load name = .ok source := by
  obtain ⟨disk₁, hopened, hdb₁⟩ := Store.openDatabase_of_adopted hfile hdb hadopted
  have hneeds : (f.running name).needsStore = true := by
    simp [Flags.needsStore, Flags.running, hname]
  have hstore : openStore engine (f.running name) config host.disk =
      (.ok (.present (.database path true)), disk₁) := by
    rw [openStore, if_pos hneeds, hopened]
    rfl
  obtain ⟨-, -, -, -, hstarts⟩ := Session.start_eq_ok hstart
  exact ⟨_, _, openSession_of_start hconfig hstore (hstarts _ _ _), ⟨rfl, rfl, rfl⟩,
    Session.load_eq_ok rfl hdb₁ hget⟩

/-- Where the database can be opened, a source can be run at once, whether that opens it or not. -/
theorem exists_session_executing {disk : Disk} {opened : Store}
    (hopened : Store.openDatabase engine config.db host.disk = (.ok opened, disk))
    (hstart : Session.start (settingsOf config) store console host' = .ok s)
    (hconfig : configure (f.executing source) host.disk = .ok config) (feed : Feed) (sink : Sink) :
    ∃ s' host₁, openSession engine (f.executing source) feed sink host = (.ok (config, s'), host₁) ∧
      s'.StartsLike s feed sink := by
  have hstore : ∃ store₁ disk₁,
      openStore engine (f.executing source) config host.disk = (.ok store₁, disk₁) := by
    rw [openStore]
    split
    · rw [hopened]
      exact ⟨_, _, rfl⟩
    · exact ⟨_, _, rfl⟩
  obtain ⟨store₁, disk₁, hstore₁⟩ := hstore
  obtain ⟨-, -, -, -, hstarts⟩ := Session.start_eq_ok hstart
  exact ⟨_, _, openSession_of_start hconfig hstore₁ (hstarts _ _ _), rfl, rfl, rfl⟩

/-- **A saved program runs.** Take an invocation that saves a source under a name, where the
configuration can be read, the database can be opened and the source has a program. Let the engine
take the name of the database for a file on the disk that can be written, and let no trace be
written over it. Then the invocation succeeds and has no output. If the configuration is still the
same afterwards, then a later invocation that runs the program by its name has the output and the
result of one that runs the source at once, whatever the database held before and whatever samples
there are. Only a trace that was asked for and cannot be written makes a difference. The end of the
input is no error of these invocations. -/
theorem saved_program_runs (hf : f.Plain) (hsource : source ≠ []) (hname : name ≠ []) {p : Program}
    (hopen : openSession engine (f.saving source name) input output host = (.ok (config, s), host'))
    (hcompile : (s.compile source).1 = .ok p)
    (hfile : engine.resolve config.db = .file path .readWrite) (hapart : s.TracesApart) :
    ∃ saved : Outcome,
      (∀ fuel, run engine fuel (f.saving source name) input output host = some saved) ∧
      saved.shown = (.ok (), output) ∧
      ∀ later : Host, later.disk = saved.host.disk →
        Config.load f.config later.disk = Config.load f.config host.disk →
        ∀ fuel feed sink,
          let again := run engine fuel (f.running name) feed sink later
          let once := run engine fuel (f.executing source) feed sink host
          (again.map Outcome.shown = once.map Outcome.shown ∨
            config.traceDir ≠ [] ∧ ∃ o, (again = some o ∨ once = some o) ∧ o.LacksTrace) ∧
          ∀ o e, once = some o → o.result = .error (.session e) → e.isEndOfInput = false := by
  obtain ⟨hconfig, store, disk, hstore, hstart⟩ := openSession_eq_ok hopen
  obtain ⟨rfl, hopened, l, db, hdb, hadopted⟩ := openStore_saving hname hfile hstore
  obtain ⟨hsettings, hsstore, hconsole, hhost, -⟩ := Session.start_eq_ok hstart
  have hdb₀ : s.host.disk.database path = .ok (l, db) := by
    rw [hhost]
    exact hdb
  obtain ⟨s', db', hsave, hconsole', hfound, hadopted', hget⟩ :=
    Session.save_eq_ok hsstore hapart hdb₀ hadopted hcompile name
  refine ⟨_, fun fuel => (run_of_open hopen fuel).trans
    (Invocation.proceed_saving hf hsource hname hsave fuel config), ?_, ?_⟩
  · show (Except.ok (), s'.console.close.2.sink) = _
    rw [hconsole', hconsole]
    rfl
  intro later hlater hload fuel feed sink
  have hlater' : later.disk = s'.host.disk := hlater
  obtain ⟨s₁, host₁, hopen₁, hlike₁, hload₁⟩ := exists_session_running hname hfile hstart
    ((configure_congr rfl hload).trans hconfig) (hlater' ▸ hfound) hadopted' hget feed sink
  obtain ⟨s₂, host₂, hopen₂, hlike₂⟩ := exists_session_executing hopened hstart
    ((configure_congr rfl rfl).trans hconfig) feed sink
  have hagain := (run_of_open hopen₁ fuel).trans
    (Invocation.proceed_running hf hname hload₁ fuel config)
  have honce := (run_of_open hopen₂ fuel).trans
    (Invocation.proceed_executing hf hsource fuel config)
  have hdir : s.settings.traceDir = config.traceDir := by
    rw [hsettings]
    rfl
  dsimp only
  rw [hagain, honce, ← hdir]
  refine ⟨Invocation.perform_agree hcompile hlike₁ hlike₂ hf.step_eq hf.disasm_eq hf.step_eq
    hf.disasm_eq fuel, ?_⟩
  intro o e ho
  exact Invocation.perform_ne_endOfInput ho hf.step_eq hf.disasm_eq

/-- A program that copies one byte and then waits for another. It takes the place of an earlier one
and hides a sample. -/
theorem saved_program_runs_over_sample :
    let engine := Engine.standard
    let f : Flags := { db := text "bf.db", tape := 2, strict := true }
    let source := text ",.,"
    let name := text "cat"
    let earlier : Database := { programs := some { rows := [(name, text "-")] } }
    let host : Host := { disk := { nodes := [([text "bf.db"], .database earlier)] } }
    ∃ config s host' p saved, f.Plain ∧ source ≠ [] ∧ name ≠ [] ∧
      openSession engine (f.saving source name) .empty {} host = (.ok (config, s), host') ∧
      (s.compile source).1 = .ok p ∧
      engine.resolve config.db = .file (text "bf.db") .readWrite ∧ s.TracesApart ∧
      run engine 0 (f.saving source name) .empty {} host = some saved ∧
      Config.load f.config saved.host.disk = Config.load f.config host.disk ∧
      (run engine 3 (f.executing source) { bytes := [0x61] } {} host).map Outcome.shown =
        some (.ok (), { received := #[0x61] }) ∧
      (run engine 3 (f.running name) { bytes := [0x61] } {} saved.host).map Outcome.shown =
        some (.ok (), { received := #[0x61] }) := by
  intro engine f source name earlier host
  have hplain : f.Plain := ⟨rfl, rfl, rfl, rfl, rfl, rfl, rfl, rfl, rfl⟩
  have hsession : ∃ config s host' p,
      openSession engine (f.saving source name) .empty {} host = (.ok (config, s), host') ∧
      (s.compile source).1 = .ok p ∧ engine.resolve config.db = .file (text "bf.db") .readWrite ∧
      config.traceDir = [] ∧ s.settings.traceDir = [] := ⟨_, _, _, _, rfl, rfl, rfl, rfl, rfl⟩
  obtain ⟨config, s, host', p, hopen, hcompile, hfile, hdir, hsdir⟩ := hsession
  have hapart : s.TracesApart := by
    intro path isOpen _ htraced
    rw [hsdir] at htraced
    cases htraced
  have hrun : ∃ saved, run engine 0 (f.saving source name) .empty {} host = some saved ∧
      Config.load f.config saved.host.disk = Config.load f.config host.disk := ⟨_, rfl, rfl⟩
  have honce : (run engine 3 (f.executing source) { bytes := [0x61] } {} host).map
      Outcome.shown = some (.ok (), { received := #[0x61] }) := rfl
  obtain ⟨saved, hsaved, hload⟩ := hrun
  obtain ⟨saved', hsaved', -, hlater⟩ :=
    saved_program_runs hplain (by decide) (by decide) hopen hcompile hfile hapart
  cases hsaved.symm.trans (hsaved' 0)
  obtain ⟨hsame | ⟨htraced, -⟩, -⟩ := hlater saved.host rfl hload 3 { bytes := [0x61] } {}
  · exact ⟨config, s, host', p, saved, hplain, by decide, by decide, hopen, hcompile, hfile, hapart,
      hsaved, hload, honce, hsame.trans honce⟩
  · exact absurd hdir htraced

/-- A program is lost if it is saved in a database that is on no disk, or in one that takes the
place of the configuration file: the invocation that saves it succeeds, but no later one runs it. In
a database that cannot be written it is not even saved. -/
theorem saved_program_lost :
    let engine := Engine.standard
    let source := text "+."
    let name := text "x"
    let inMemory : Flags := { db := text ":memory:", tape := 1 }
    let inConfig : Flags := { db := text "bf.toml", tape := 1 }
    let readOnly : Flags := { db := text "file:bf.db?mode=ro", tape := 1 }
    let host : Host :=
      { disk := { nodes := [([text "bf.db"], .database Database.empty.adopt.2)] } }
    (∃ saved, run engine 0 (inMemory.saving source name) .empty {} {} = some saved ∧
      saved.shown = (.ok (), {}) ∧
      (run engine 2 (inMemory.running name) .empty {} saved.host).map Outcome.shown =
        some (.error (.session (.notFound name)), {}) ∧
      (run engine 2 (inMemory.executing source) .empty {} {}).map Outcome.shown =
        some (.ok (), { received := #[1] })) ∧
    (∃ saved cause, run engine 0 (inConfig.saving source name) .empty {} {} = some saved ∧
      saved.shown = (.ok (), {}) ∧
      (run engine 2 (inConfig.running name) .empty {} saved.host).map Outcome.shown =
        some (.error (.config (.document (text "bf.toml") cause)), {}) ∧
      (run engine 2 (inConfig.executing source) .empty {} {}).map Outcome.shown =
        some (.ok (), { received := #[1] })) ∧
    ∃ e, (run engine 0 (readOnly.saving source name) .empty {} host).map Outcome.shown =
      some (.error (.session e), {}) := by
  exact ⟨⟨_, rfl, rfl, rfl, rfl⟩, ⟨_, _, rfl, rfl, rfl, rfl⟩, _, rfl⟩

end CommandLine

end Brainfuck
