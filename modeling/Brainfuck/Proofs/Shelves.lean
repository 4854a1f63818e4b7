import Brainfuck.Proofs.Benchmarks
import Brainfuck.Proofs.Consoles
import Brainfuck.Proofs.Listing

/-!
# Programs kept in memory

A session with its programs in memory keeps none that does not compile. A source is checked when it
is saved and compiled again when it is run, and as long as no traces are written the two agree,
whatever was called in between. So a stored program always gets as far as being executed.

## Main Definitions

* `SessionCall`, `Session.afterAll` — a call on a session, and any number of calls that come to an
  end
* `Session.Vetted` — the programs of a session are in memory, and all of them compile

## Main Results

* `Session.compile_of_accepted`, `Session.compile_of_rejected` — compiling without a trace
* `Session.save_of_accepted`, `Session.save_of_rejected` — what saving does to the shelf
* `Session.exists_shelf_of_bench` — a benchmark changes nothing but the history of runs
* `Session.Vetted.perform`, `Session.Vetted.afterAll` — what a call, and any calls, preserve
* `saved_programs_compile` — the programs of a session after any calls
-/

namespace Brainfuck

/-- A call on a session. Calls that run a program say how many instructions they may take. -/
inductive SessionCall where
  | save (name source : Bytes)
  | run (fuel : Nat) (source : Bytes)
  | runNamed (fuel : Nat) (name : Bytes)
  | reset
  | bench (fuel : Nat) (name source : Bytes) (iterations capacity : Int)
  deriving DecidableEq, Repr

theorem Shelf.mem_rows_of_get? {shelf : Shelf} {name source : Bytes}
    (h : shelf.get? name = some source) : (name, source) ∈ shelf.programs.rows := by
  obtain ⟨front, back, hprograms, -⟩ := List.lookup_eq_some_iff.mp h
  rw [hprograms]
  simp

namespace Session

variable {s s' : Session} {shelf : Shelf} {name source : Bytes} {fuel : Nat}

/-- The session that a call leaves behind, whatever its answer, if the call comes to an end. -/
def perform (s : Session) : SessionCall → Option Session
  | .save name source => some (s.save name source).2
  | .run fuel source => (s.run fuel source).map (·.2)
  | .runNamed fuel name => (s.runNamed fuel name).map (·.2)
  | .reset => some s.reset
  | .bench fuel name source iterations capacity =>
    (s.bench fuel name source iterations capacity).map (·.2)

/-- The session after any number of calls that come to an end. -/
def afterAll (s : Session) (calls : List SessionCall) : Option Session :=
  calls.foldlM perform s

/-! ## Compiling without a trace -/

section Untraced

variable (hdir : s.settings.traceDir = [])

include hdir

theorem compile_of_untraced {r : Except CompileError Program}
    (h : Program.compile { strict := s.settings.strict } { bytes := source } s.host.disk =
      (r, s.host.disk)) :
    s.compile source = (r, s) := by
  unfold compile
  simp only [hdir, List.isEmpty_nil, if_true, h]

/-- Compiling an accepted source leaves the session as it is. -/
theorem compile_of_accepted (h : Feed.Accepted s.settings.strict { bytes := source }) :
    ∃ p, s.compile source = (.ok p, s) := by
  obtain ⟨d, -, hcompile⟩ := Program.compile_of_accepted h
  exact ⟨_, compile_of_untraced hdir (hcompile s.host.disk)⟩

theorem compile_of_rejected (h : ¬ Feed.Accepted s.settings.strict { bytes := source }) :
    ∃ e, s.compile source = (.error e, s) := by
  obtain ⟨e, -, hcompile⟩ := Program.compile_of_rejected h
  exact ⟨e, compile_of_untraced hdir (hcompile none s.host.disk)⟩

/-! ## Saving and loading -/

/-- An accepted source is put on the shelf, and nothing else changes. -/
theorem save_of_accepted (hstore : s.store = .present (.shelf shelf))
    (h : Feed.Accepted s.settings.strict { bytes := source }) (name : Bytes) :
    s.save name source =
      (.ok (), { s with store := .present (.shelf (shelf.put name source)) }) := by
  obtain ⟨p, hcompile⟩ := compile_of_accepted hdir h
  unfold save
  rw [hstore]
  simp only [hcompile]
  rfl

/-- A source that is rejected changes nothing. -/
theorem save_of_rejected (hstore : s.store = .present (.shelf shelf))
    (h : ¬ Feed.Accepted s.settings.strict { bytes := source }) (name : Bytes) :
    ∃ e, s.save name source = (.error (.saveRejected name e), s) := by
  obtain ⟨e, hcompile⟩ := compile_of_rejected hdir h
  refine ⟨e, ?_⟩
  unfold save
  rw [hstore]
  simp only [hcompile]

end Untraced

/-- A name is looked up on the shelf first. -/
theorem load_of_shelf (hstore : s.store = .present (.shelf shelf)) (name : Bytes) :
    s.load name = match shelf.get? name <|> sample? name with
      | some source => .ok source
      | none => .error (.notFound name) := by
  rw [load, hstore]
  rfl

/-- After a source was put on the shelf it is loaded under its name. Other names load what they did
before. -/
theorem load_of_put (hstore : s.store = .present (.shelf shelf))
    (hstore' : s'.store = .present (.shelf (shelf.put name source))) :
    s'.load name = .ok source ∧ ∀ other, other ≠ name → s'.load other = s.load other := by
  constructor
  · rw [load_of_shelf hstore', Shelf.get?_put, if_pos rfl]
    rfl
  · intro other hne
    rw [load_of_shelf hstore', load_of_shelf hstore, Shelf.get?_put, if_neg hne]

/-! ## Calls that run programs -/

/-- Executing code changes the tape and the console only. -/
theorem kept_of_execute {code : Code} {r : Except SessionError Unit}
    (h : s.execute fuel code = some (r, s')) : s'.settings = s.settings ∧ s'.store = s.store := by
  rw [execute_eq] at h
  obtain ⟨⟨r₁, m⟩, -, hresult⟩ := Option.map_eq_some_iff.mp h
  obtain ⟨-, rfl⟩ := Prod.mk.inj hresult
  exact ⟨rfl, rfl⟩

/-- A run that is settled with an error has failed itself, or its output cannot be delivered. -/
theorem settle_eq_error {r : Except SessionError Unit} {c : Console} {e : SessionError}
    (h : (settle r c).1 = .error e) : r = .error e ∨ ∃ cause, e = .delivery cause := by
  cases r with
  | error _ => exact .inl h
  | ok _ =>
      unfold settle at h
      rcases hflush : c.flush with ⟨cause | _, c'⟩
      · simp only [hflush] at h
        cases h
        exact .inr ⟨cause, rfl⟩
      · simp only [hflush] at h
        cases h

/-- Code fails in its run, or in the delivery of its output. -/
theorem error_of_execute {code : Code} {e : SessionError}
    (h : s.execute fuel code = some (.error e, s')) :
    (∃ cause, e = .run cause) ∨ ∃ cause, e = .delivery cause := by
  rw [execute_eq] at h
  obtain ⟨⟨r, m⟩, -, hresult⟩ := Option.map_eq_some_iff.mp h
  obtain ⟨hsettle, -⟩ := Prod.mk.inj hresult
  rcases settle_eq_error hsettle with hrun | hdelivery
  · cases r with
    | error cause =>
        cases hrun
        exact .inl ⟨cause, rfl⟩
    | ok _ => cases hrun
  · exact .inr hdelivery

theorem kept_of_run {r : Except SessionError Unit} (h : s.run fuel source = some (r, s')) :
    s'.settings = s.settings ∧ s'.store = s.store := by
  have hsettings := s.settings_compile source
  have hstore := s.store_compile source
  unfold run at h
  generalize s.compile source = compiled at h hsettings hstore
  rcases compiled with ⟨e | p, s₁⟩
  · cases h
    exact ⟨hsettings, hstore⟩
  · obtain ⟨hsettings₁, hstore₁⟩ := kept_of_execute h
    exact ⟨hsettings₁.trans hsettings, hstore₁.trans hstore⟩

theorem kept_of_runNamed {r : Except SessionError Unit} (h : s.runNamed fuel name = some (r, s')) :
    s'.settings = s.settings ∧ s'.store = s.store := by
  unfold runNamed at h
  cases hload : s.load name with
  | error e =>
      rw [hload] at h
      cases h
      exact ⟨rfl, rfl⟩
  | ok source =>
      rw [hload] at h
      exact kept_of_run h

/-- A benchmark changes nothing but the history of runs. -/
theorem exists_shelf_of_bench (hstore : s.store = .present (.shelf shelf))
    {iterations capacity : Int} {r : Except SessionError Run}
    (h : s.bench fuel name source iterations capacity = some (r, s')) :
    s'.settings = s.settings ∧
      ∃ shelf', s'.store = .present (.shelf shelf') ∧ shelf'.programs = shelf.programs := by
  have hsettings := s.settings_compile source
  have hstore₁ := (s.store_compile source).trans hstore
  unfold bench at h
  split at h
  · cases h
    exact ⟨rfl, shelf, hstore, rfl⟩
  generalize s.compile source = compiled at h hsettings hstore₁
  rcases compiled with ⟨e | p, s₁⟩
  · cases h
    exact ⟨hsettings, shelf, hstore₁, rfl⟩
  cases hlength : checkLength 1 capacity with
  | error f =>
      simp only [hlength] at h
      cases h
      exact ⟨hsettings, shelf, hstore₁, rfl⟩
  | ok capacity =>
      simp only [hlength] at h
      rcases hiterate : iterate p.code fuel none 0 (Tape.zero s₁.tape.size)
        (freshStreams capacity) iterations.toNat with _ | e | output
      · simp only [hiterate] at h
        cases h
      · simp only [hiterate] at h
        cases h
        exact ⟨hsettings, shelf, hstore₁, rfl⟩
      · -- the run is recorded on the shelf, which cannot fail
        have hrecord (run : Run) := recordRun_of_shelf hstore₁ run
        simp only [hiterate, hrecord] at h
        cases h
        exact ⟨hsettings, _, rfl, rfl⟩

/-! ## Any calls -/

/-- The programs of a session are in memory, and all of them compile by its settings. -/
structure Vetted (settings : Settings) (s : Session) : Prop where
  settings_eq : s.settings = settings
  exists_shelf : ∃ shelf, s.store = .present (.shelf shelf) ∧
    ∀ row ∈ shelf.programs.rows, Feed.Accepted settings.strict { bytes := row.2 }

theorem Vetted.of_kept {settings : Settings} (h : s.Vetted settings)
    (hkept : s'.settings = s.settings ∧ s'.store = s.store) : s'.Vetted settings := by
  refine ⟨hkept.1.trans h.settings_eq, ?_⟩
  rw [hkept.2]
  exact h.exists_shelf

/-- A program is put on the shelf only if it compiles. -/
theorem Vetted.save {settings : Settings} (hdir : settings.traceDir = []) (h : s.Vetted settings)
    (name source : Bytes) : (s.save name source).2.Vetted settings := by
  obtain ⟨rfl, shelf, hstore, haccepted⟩ := h
  by_cases hsource : Feed.Accepted s.settings.strict { bytes := source }
  · rw [save_of_accepted hdir hstore hsource]
    refine ⟨rfl, _, rfl, fun row hrow => ?_⟩
    rcases KeyTable.mem_rows_set hrow with rfl | hold
    · exact hsource
    · exact haccepted row hold
  · obtain ⟨e, hsave⟩ := save_of_rejected hdir hstore hsource name
    rw [hsave]
    exact ⟨rfl, shelf, hstore, haccepted⟩

theorem Vetted.perform {settings : Settings} (hdir : settings.traceDir = [])
    (h : s.Vetted settings) {c : SessionCall} (hc : s.perform c = some s') :
    s'.Vetted settings := by
  cases c with
  | save name source =>
      cases hc
      exact h.save hdir name source
  | run fuel source =>
      obtain ⟨⟨r, s₁⟩, hrun, rfl⟩ := Option.map_eq_some_iff.mp hc
      exact h.of_kept (kept_of_run hrun)
  | runNamed fuel name =>
      obtain ⟨⟨r, s₁⟩, hrun, rfl⟩ := Option.map_eq_some_iff.mp hc
      exact h.of_kept (kept_of_runNamed hrun)
  | reset =>
      cases hc
      exact h.of_kept ⟨rfl, rfl⟩
  | bench fuel name source iterations capacity =>
      obtain ⟨⟨r, s₁⟩, hbench, rfl⟩ := Option.map_eq_some_iff.mp hc
      obtain ⟨shelf, hstore, haccepted⟩ := h.exists_shelf
      obtain ⟨hsettings, shelf', hstore', hprograms⟩ := exists_shelf_of_bench hstore hbench
      refine ⟨hsettings.trans h.settings_eq, shelf', hstore', ?_⟩
      rw [hprograms]
      exact haccepted

theorem Vetted.afterAll {settings : Settings} (hdir : settings.traceDir = [])
    (h : s.Vetted settings) {calls : List SessionCall} (hcalls : s.afterAll calls = some s') :
    s'.Vetted settings := by
  induction calls generalizing s with
  | nil =>
      cases hcalls
      exact h
  | cons c calls ih =>
      rw [Session.afterAll, List.foldlM_cons] at hcalls
      obtain ⟨s₁, hc, hrest⟩ := Option.bind_eq_some_iff.mp hcalls
      exact ih (h.perform hdir hc) hrest

end Session

/-- **Only programs that compile are kept.** Take a session with an empty shelf that writes no
traces, and any calls that save, run or benchmark programs or clear the tape. Afterwards every
source on the shelf compiles by the settings of the session. So a name on the shelf runs the code of
its source, and fails in the run or in the delivery of its output if it fails at all. A source is
saved if and only if it compiles; then it is loaded under its name, and every other name loads what
it did before. If it is not saved, the session is as it was, its store included. -/
theorem saved_programs_compile {s₀ s : Session} (hstore : s₀.store = .present (.shelf .empty))
    (hdir : s₀.settings.traceDir = []) {calls : List SessionCall}
    (hcalls : s₀.afterAll calls = some s) :
    ∃ shelf, s.store = .present (.shelf shelf) ∧ s.settings = s₀.settings ∧
      (∀ name source, (name, source) ∈ shelf.programs.rows → ∃ p, s.compile source = (.ok p, s)) ∧
      (∀ name source, shelf.get? name = some source → ∃ p, s.compile source = (.ok p, s) ∧
        ∀ fuel, s.runNamed fuel name = s.execute fuel p.code ∧
          ∀ e s', s.runNamed fuel name = some (.error e, s') →
            (∃ cause, e = .run cause) ∨ ∃ cause, e = .delivery cause) ∧
      ∀ name source,
        ((s.save name source).1 = .ok () ↔ ∃ p, (s.compile source).1 = .ok p) ∧
        (∀ s', s.save name source = (.ok (), s') → s'.load name = .ok source ∧
          ∀ other, other ≠ name → s'.load other = s.load other) ∧
        ∀ e s', s.save name source = (.error e, s') → s' = s := by
  have hvetted₀ : s₀.Vetted s₀.settings :=
    ⟨rfl, .empty, hstore, by simp [Shelf.empty, KeyTable.empty]⟩
  obtain ⟨hsettings, shelf, hshelf, haccepted⟩ := hvetted₀.afterAll hdir hcalls
  rw [← hsettings] at hdir haccepted
  have hcompiles (name source : Bytes) (hmem : (name, source) ∈ shelf.programs.rows) :
      ∃ p, s.compile source = (.ok p, s) :=
    Session.compile_of_accepted hdir (haccepted _ hmem)
  refine ⟨shelf, hshelf, hsettings, hcompiles, ?_, ?_⟩
  · intro name source hget
    obtain ⟨p, hp⟩ := hcompiles name source (Shelf.mem_rows_of_get? hget)
    refine ⟨p, hp, fun fuel => ?_⟩
    have hload : s.load name = .ok source := by
      rw [Session.load_of_shelf hshelf, hget]
      rfl
    have hrun : s.runNamed fuel name = s.execute fuel p.code := by
      simp only [Session.runNamed, hload, Session.run, hp]
    refine ⟨hrun, fun e s' hfails => ?_⟩
    rw [hrun] at hfails
    exact Session.error_of_execute hfails
  · intro name source
    by_cases hsource : Feed.Accepted s.settings.strict { bytes := source }
    · obtain ⟨p, hp⟩ := Session.compile_of_accepted hdir hsource
      have hsave := Session.save_of_accepted hdir hshelf hsource name
      rw [hsave, hp]
      refine ⟨by simp, fun s' hs' => ?_, fun e s' hs' => ?_⟩
      · cases hs'
        exact Session.load_of_put hshelf rfl
      · cases hs'
    · obtain ⟨e, he⟩ := Session.compile_of_rejected hdir hsource
      obtain ⟨e', hsave⟩ := Session.save_of_rejected hdir hshelf hsource name
      rw [hsave, he]
      refine ⟨by simp, fun s' hs' => ?_, fun e s' hs' => ?_⟩
      · cases hs'
      · cases hs'
        rfl

/-- A program that hides a sample is saved, then a source with an open loop is refused in its place,
and programs run in between. -/
theorem saved_programs_compile_over_sample :
    let s₀ : Session :=
      { settings := { strict := true }, tape := Tape.zero 1, console := { feed := Feed.empty },
        store := .present (.shelf .empty), host := {} }
    let calls : List SessionCall :=
      [.save (text "cat") (text "+."), .save (text "cat") (text "+["),
        .bench 9 (text "b") (text "+.") 2 4, .run 9 (text "]"), .runNamed 9 (text "cat"), .reset]
    s₀.store = .present (.shelf .empty) ∧ s₀.settings.traceDir = [] ∧
      ∃ s, s₀.afterAll calls = some s ∧ s.load (text "cat") = .ok (text "+.") ∧
        (∃ p, s.compile (text "+.") = (.ok p, s) ∧
          ∀ fuel, s.runNamed fuel (text "cat") = s.execute fuel p.code) ∧
        ∀ e s', s.save (text "cat") (text "+[") = (.error e, s') → s' = s := by
  intro s₀ calls
  have hend : (s₀.afterAll calls).map (·.store) = some (.present (.shelf
      { programs.rows := [(text "cat", text "+.")]
        history.rows := [(text "b",
          [{ name := text "b", iterations := 2, elapsed := 0, output := 1, time := .zero }])]
      })) := by
    decide +kernel
  obtain ⟨s, hcalls, hstore⟩ := Option.map_eq_some_iff.mp hend
  obtain ⟨shelf, hshelf, -, -, hrun, hsave⟩ := saved_programs_compile rfl rfl hcalls
  cases hstore.symm.trans hshelf
  obtain ⟨p, hp, hruns⟩ := hrun (text "cat") (text "+.") rfl
  exact ⟨rfl, rfl, s, hcalls, Session.load_of_shelf hstore _,
    ⟨p, hp, fun fuel => (hruns fuel).1⟩, (hsave _ _).2.2⟩

end Brainfuck
