import Brainfuck.Proofs.Paths
import Brainfuck.Proofs.Tracing

/-!
# Files of traces

A trace has a file of its own, named after its identity. An identity without a slash names a file
in the directory of the traces, and traces with different identities are kept apart: compiling with
one of them leaves the file of the other as it is. An identity with slashes is taken as a path. It
may lead out of the directory, and to the file of another trace.

## Main Definitions

* `traceName` — the name of the file of a trace
* `Path.IsFileIn` — a path is that of a file in a directory

## Main Results

* `Disk.getLast?_of_locate` — the path of a file leads to a location that ends with its name
* `Program.spares_compile` — compiling spares every location but that of the trace
* `trace_files_keep_apart` — identities without a slash
* `trace_leaves_directory` — identities with slashes
-/

namespace Brainfuck

/-! ## Where a file is -/

/-- A path is that of the file with a name in a directory. -/
structure Path.IsFileIn (dir name path : Bytes) : Prop where
  slash_free : slash ∉ name
  path_eq : path = within (clean dir) name

namespace Disk

variable {d d' : Disk} {here l : Location} {dir name path content : Bytes}

/-- Elements that end with a name lead to a location that does. -/
theorem getLast?_of_walk (hname : Path.IsName name) {es : List Bytes}
    (h : d.walk here (es ++ [name]) = .ok l) : l.getLast? = some name := by
  induction es generalizing here with
  | nil =>
      rw [List.nil_append, walk] at h
      split at h
      · cases h
      · split at h
        · next hself => simp [hname.ne_nil, hname.ne_self] at hself
        · split at h
          · next habove => simp [hname.ne_above] at habove
          · split at h
            · cases h
            · cases h
              exact List.getLast?_concat
      · cases h
  | cons e es ih =>
      rw [List.cons_append, walk] at h
      split at h
      · cases h
      · split at h
        · exact ih h
        · split at h
          · exact ih h
          · split at h
            · cases h
            · exact ih h
      · cases h

/-- The path of a file leads to a location that ends with its name. -/
theorem getLast?_of_locate (hname : Path.IsName name)
    (h : d.locate (Path.within dir name) = .ok l) : l.getLast? = some name := by
  obtain ⟨es, hes⟩ := Path.elements_within hname.slash_free dir
  unfold locate at h
  rw [hes] at h
  split at h
  · cases h
  · split at h
    · cases h
    · split at h
      · cases h
      · exact getLast?_of_walk hname h

theorem exists_locate_of_read (h : d.read path = .ok content) : ∃ l, d.locate path = .ok l := by
  cases hlocate : d.locate path with
  | ok l => exact ⟨l, rfl⟩
  | error reason =>
      rw [read, stat, hlocate] at h
      cases h

end Disk

/-! ## What a trace spares -/

/-- Writing a trace spares every location to which its path does not lead. -/
theorem Recorder.spares_flush (r : Recorder) {disk : Disk} {l : Location}
    (h : ∀ d : Disk, d.working = disk.working → d.locate r.path ≠ .ok l) :
    Disk.Spares l disk (r.flush disk).2 := by
  have hmade : Disk.Spares l disk
      (if r.dir.isEmpty then (.ok (), disk) else disk.makeDirectories r.dir).2 := by
    split
    · exact .refl l disk
    · exact Disk.spares_makeDirectories disk r.dir l
  unfold flush
  split
  next made disk₁ heq =>
    rw [heq] at hmade
    split
    · exact hmade
    · have hwrite := hmade.trans (Disk.spares_write (h disk₁ hmade.working) r.text)
      split
      next hresult =>
        rw [hresult] at hwrite
        exact hwrite
      next hresult =>
        rw [hresult] at hwrite
        exact hwrite

theorem Program.spares_compile (strict : Bool) (trace : Option TraceSettings) (source : Feed)
    {disk : Disk} {l : Location}
    (h : ∀ t, trace = some t → ∀ d : Disk, d.working = disk.working → d.locate t.path ≠ .ok l) :
    Disk.Spares l disk (compile { strict, trace } source disk).2 := by
  by_cases haccepted : source.Accepted strict
  · cases trace with
    | none =>
        obtain ⟨d, -, hcompile⟩ := compile_of_accepted haccepted
        rw [hcompile]
        exact .refl l disk
    | some t =>
        obtain ⟨d, -, hcompile⟩ := compile_traced_of_accepted haccepted t
        have hflush := Recorder.spares_flush
          (Recorder.describing { dir := t.dir, id := t.id } d.code) (h t rfl)
        generalize hresult : (Recorder.describing { dir := t.dir, id := t.id } d.code).flush disk =
          result at hflush
        obtain ⟨r, disk'⟩ := result
        cases r with
        | ok document =>
            rw [(hcompile disk disk').1 document hresult]
            exact hflush
        | error e =>
            rw [(hcompile disk disk').2 e hresult]
            exact hflush
  · obtain ⟨e, -, hcompile⟩ := compile_of_rejected haccepted
    rw [hcompile]
    exact .refl l disk

/-! ## Names of traces -/

/-- The name of the file of a trace. -/
def traceName (id : Bytes) : Bytes :=
  text "bfsource-" ++ id ++ text ".trace"

theorem slash_mem_traceName {id : Bytes} : Path.slash ∈ traceName id ↔ Path.slash ∈ id := by
  have hfront : Path.slash ∉ text "bfsource-" := by decide
  have hending : Path.slash ∉ text ".trace" := by decide
  simp [traceName, hfront, hending]

theorem isName_traceName {id : Bytes} (h : Path.slash ∉ id) : Path.IsName (traceName id) := by
  have hne {e : Bytes} (he : e.length < 9) : traceName id ≠ e := by
    rintro rfl
    rw [traceName, List.append_assoc, List.length_append] at he
    exact absurd he (Nat.not_lt.mpr (Nat.le_add_right 9 _))
  exact ⟨⟨mt slash_mem_traceName.mp h, hne (by decide), hne (by decide)⟩, hne (by decide)⟩

theorem traceName_injective {id id' : Bytes} (h : traceName id = traceName id') : id = id' :=
  List.append_cancel_left (List.append_cancel_right h)

namespace TraceSettings

variable {dir id id' : Bytes}

theorem path_eq (dir : Bytes) (h : Path.slash ∉ id) :
    path ⟨dir, id⟩ = Path.within (Path.clean dir) (traceName id) :=
  Path.join_of_isName (isName_traceName h) dir

/-- Different identities lead to different locations, on any two disks. -/
theorem locate_path_ne (h : Path.slash ∉ id) (h' : Path.slash ∉ id') (hne : id ≠ id')
    {d d' : Disk} {l : Location} (hlocate : d.locate (path ⟨dir, id⟩) = .ok l) :
    d'.locate (path ⟨dir, id'⟩) ≠ .ok l := by
  intro hlocate'
  rw [path_eq dir h] at hlocate
  rw [path_eq dir h'] at hlocate'
  have hlast := Disk.getLast?_of_locate (isName_traceName h) hlocate
  rw [Disk.getLast?_of_locate (isName_traceName h') hlocate'] at hlast
  exact hne (traceName_injective (Option.some.inj hlast)).symm

end TraceSettings

/-- **The files of traces are kept apart.** For every directory, the trace of an identity is the
file of that name directly in the directory if and only if there is no slash in the identity. Two
such identities that differ have different paths, and compiling any source with one of them leaves
the trace of the other as it is. -/
theorem trace_files_keep_apart (dir : Bytes) :
    (∀ id, Path.IsFileIn dir (traceName id) (TraceSettings.path ⟨dir, id⟩) ↔ Path.slash ∉ id) ∧
    ∀ id id' : Bytes, Path.slash ∉ id → Path.slash ∉ id' → id ≠ id' →
      TraceSettings.path ⟨dir, id⟩ ≠ TraceSettings.path ⟨dir, id'⟩ ∧
      ∀ (strict : Bool) (source : Feed) (disk : Disk) (content : Bytes),
        disk.read (TraceSettings.path ⟨dir, id⟩) = .ok content →
        (Program.compile { strict, trace := some ⟨dir, id'⟩ } source disk).2.read
          (TraceSettings.path ⟨dir, id⟩) = .ok content := by
  refine ⟨?_, ?_⟩
  · intro id
    constructor
    · intro h
      exact mt slash_mem_traceName.mpr h.slash_free
    · intro h
      exact ⟨mt slash_mem_traceName.mp h, TraceSettings.path_eq dir h⟩
  · intro id id' h h' hne
    refine ⟨?_, ?_⟩
    · rw [TraceSettings.path_eq dir h, TraceSettings.path_eq dir h']
      intro heq
      exact hne (traceName_injective (Path.within_injective heq))
    · intro strict source disk content hread
      obtain ⟨l, hlocate⟩ := Disk.exists_locate_of_read hread
      refine Disk.Spares.read (l := l) ?_ hlocate hread
      apply Program.spares_compile
      rintro t ⟨⟩ d -
      exact TraceSettings.locate_path_ne h h' hne hlocate

/-- Two identities that would stand for directories by themselves, in a directory that is not
clean. -/
theorem trace_files_keep_apart_of_dots :
    let dir := text "t/./u/.."
    let path := text "t/bfsource-...trace"
    let content := text "IncCell\t1:1\n"
    let disk : Disk := { nodes := [([text "t"], .directory),
      ([text "t", text "bfsource-...trace"], .file content)] }
    TraceSettings.path ⟨dir, text ".."⟩ = path ∧ disk.read path = .ok content ∧
      path ≠ TraceSettings.path ⟨dir, text "."⟩ ∧
      (Program.compile { trace := some ⟨dir, text "."⟩ } { bytes := text "-" } disk).2.read path =
        .ok content := by
  intro dir path content disk
  have hpath : TraceSettings.path ⟨dir, text ".."⟩ = path := by decide
  have hread : disk.read path = .ok content := by decide
  obtain ⟨hne, hcompile⟩ := (trace_files_keep_apart dir).2 (text "..") (text ".") (by decide)
    (by decide) (by decide)
  rw [hpath] at hne hcompile
  exact ⟨hpath, hread, hne, hcompile false { bytes := text "-" } disk content hread⟩

/-- Two identities with slashes lead out of the directory, and to the same file: the trace of the
second program is written over that of the first. -/
theorem trace_leaves_directory :
    let first : TraceSettings := ⟨text "t", text "a/../../x"⟩
    let second : TraceSettings := ⟨text "t", text "b/../../x"⟩
    let written (content : Bytes) : Disk :=
      { nodes := [([text "x.trace"], .file content), ([text "t"], .directory)] }
    first.id ≠ second.id ∧ first.path = text "x.trace" ∧ second.path = text "x.trace" ∧
      (Program.compile { trace := some first } { bytes := text "+" } {}).2 =
        written (text "IncCell\t1:1\n") ∧
      (Program.compile { trace := some second } { bytes := text "-" }
        (written (text "IncCell\t1:1\n"))).2 = written (text "DecCell\t1:1\n") := by
  intro first second written
  exact ⟨by decide, by decide, by decide, by decide, by decide⟩

end Brainfuck
