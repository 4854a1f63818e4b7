import Brainfuck.Proofs.Paths
import Brainfuck.Sample

/-!
# Names of samples

A name is taken as a path to a sample. A name without a slash reaches the sample that it names and
no other. A name with slashes names no sample, but it may reach one.

## Main Definitions

* `ReachesSample` — a name leads to the file of a sample

## Main Results

* `samplePath_eq` — the file that a name without a slash stands for
* `sample?_isSome_iff` — a sample is found where a name leads to one
* `reachesSample_iff` — which names without a slash lead to a sample
-/

namespace Brainfuck

/-- A name leads to the file of a sample. -/
def ReachesSample (name : Bytes) : Prop :=
  ∃ sample ∈ sampleNames, samplePath name = samplePath sample

variable {name : Bytes}

/-- A name without a slash stands for a file in the directory of the samples. -/
theorem samplePath_eq (h : Path.slash ∉ name) :
    samplePath name = text "src" ++ Path.slash :: (name ++ text ".bf") := by
  -- with its ending the name has at least three bytes, so it is no special element
  have hne {e : Bytes} (he : e.length < 3) : name ++ text ".bf" ≠ e := by
    rintro rfl
    rw [List.length_append] at he
    exact absurd he (Nat.not_lt.mpr (Nat.le_add_left 3 _))
  have hname : Path.IsName (name ++ text ".bf") := by
    refine ⟨⟨?_, hne (by decide), hne (by decide)⟩, hne (by decide)⟩
    rw [List.mem_append]
    rintro (hstem | hending)
    · exact h hstem
    · exact absurd hending (by decide)
  rw [samplePath, Path.join_of_isName hname]
  rfl

/-- Names without a slash stand for different files. -/
theorem eq_of_samplePath_eq {name' : Bytes} (h : Path.slash ∉ name) (h' : Path.slash ∉ name')
    (heq : samplePath name = samplePath name') : name = name' := by
  rw [samplePath_eq h, samplePath_eq h'] at heq
  have hfile := (List.cons.inj (List.append_cancel_left heq)).2
  exact List.append_cancel_right hfile

theorem slash_not_mem_sampleNames : ∀ sample ∈ sampleNames, Path.slash ∉ sample := by
  decide

/-- Among the names without a slash, exactly the names of the samples lead to one. -/
theorem reachesSample_iff (h : Path.slash ∉ name) : ReachesSample name ↔ name ∈ sampleNames := by
  constructor
  · rintro ⟨sample, hmem, heq⟩
    rw [eq_of_samplePath_eq h (slash_not_mem_sampleNames sample hmem) heq]
    exact hmem
  · intro hmem
    exact ⟨name, hmem, rfl⟩

/-- A sample is found where a name leads to one. -/
theorem sample?_isSome_iff : (sample? name).isSome = true ↔ ReachesSample name := by
  rw [sample?, Option.isSome_map, List.find?_isSome]
  constructor
  · rintro ⟨s, hs, heq⟩
    exact ⟨s.1, List.mem_map_of_mem hs, (eq_of_beq heq).symm⟩
  · rintro ⟨sample, hmem, heq⟩
    obtain ⟨s, hs, rfl⟩ := List.mem_map.mp hmem
    exact ⟨s, hs, beq_iff_eq.mpr heq.symm⟩

end Brainfuck
