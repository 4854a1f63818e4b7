import Brainfuck.Text.Path

/-!
# Paths of files in a directory

A name without slashes, other than the two that stand for directories, is joined to a directory as
one more element behind those of the cleaned path.

## Main Definitions

* `Path.IsElement` — a text that can be an element of a cleaned path
* `Path.IsName` — a text that can name a file
* `Path.within` — the path of a file in a directory
* `Path.cleanElements` — the elements of a cleaned path

## Main Results

* `Path.elements_append` — the elements of a path before and behind a slash
* `Path.isElement_of_mem_cleanElements` — a cleaned path has no element that adds nothing
* `Path.join_of_isName` — a name that is joined to a directory is the name of a file in it
* `Path.within_injective` — files with different names have different paths
-/

namespace Brainfuck.Path

variable {e p dir name : Bytes} {es done : List Bytes} {rooted : Bool}

/-- An element that says something: it is neither empty nor stands for the directory itself. -/
structure IsElement (e : Bytes) : Prop where
  slash_free : slash ∉ e
  ne_nil : e ≠ []
  ne_self : e ≠ self

/-- A text that can name a file: an element that stands for no directory. -/
structure IsName (e : Bytes) : Prop extends IsElement e where
  ne_above : e ≠ above

/-- The path of a file in a directory, which is given by its cleaned path. -/
def within (dir name : Bytes) : Bytes :=
  if dir = self then name
  else if dir = [slash] then slash :: name
  else dir ++ slash :: name

/-! ### Elements -/

theorem elements_cons {b : UInt8} (hb : b ≠ slash) (h : elements p = e :: es) :
    elements (b :: p) = (b :: e) :: es := by
  rw [elements, pieces] at h
  rw [elements, pieces, List.foldr_cons, if_neg hb, h]

theorem elements_slash (p : Bytes) : elements (slash :: p) = [] :: elements p := rfl

/-- A path has an element, and no element has a slash in it. -/
theorem exists_elements (p : Bytes) :
    ∃ e es, elements p = e :: es ∧ ∀ x ∈ e :: es, slash ∉ x := by
  induction p with
  | nil => exact ⟨[], [], rfl, by simp⟩
  | cons b p ih =>
      obtain ⟨e, es, h, hfree⟩ := ih
      by_cases hb : b = slash
      · subst hb
        refine ⟨[], e :: es, by rw [elements_slash, h], ?_⟩
        exact List.forall_mem_cons.mpr ⟨List.not_mem_nil, hfree⟩
      · refine ⟨b :: e, es, elements_cons hb h, ?_⟩
        obtain ⟨he, hes⟩ := List.forall_mem_cons.mp hfree
        refine List.forall_mem_cons.mpr ⟨?_, hes⟩
        rw [List.mem_cons, not_or]
        exact ⟨Ne.symm hb, he⟩

theorem slash_free_of_mem_elements (p : Bytes) : ∀ x ∈ elements p, slash ∉ x := by
  obtain ⟨e, es, h, hfree⟩ := exists_elements p
  rwa [h]

/-- A text without a slash is a single element. -/
theorem elements_of_slash_free (h : slash ∉ e) : elements e = [e] := by
  induction e with
  | nil => rfl
  | cons b e ih =>
      rw [List.mem_cons, not_or] at h
      exact elements_cons (Ne.symm h.1) (ih h.2)

/-- The elements of a path are those before a slash and those behind it. -/
theorem elements_append (p q : Bytes) : elements (p ++ slash :: q) = elements p ++ elements q := by
  induction p with
  | nil => rfl
  | cons b p ih =>
      by_cases hb : b = slash
      · subst hb
        rw [List.cons_append, elements_slash, elements_slash, ih, List.cons_append]
      · obtain ⟨e, es, h, -⟩ := exists_elements p
        rw [h, List.cons_append] at ih
        rw [List.cons_append, elements_cons hb ih, elements_cons hb h, List.cons_append]

/-- The last element of the path of a file is its name. -/
theorem elements_within (h : slash ∉ name) (dir : Bytes) :
    ∃ es, elements (within dir name) = es ++ [name] := by
  have hname := elements_of_slash_free h
  unfold within
  split
  · exact ⟨[], hname⟩
  · split
    · exact ⟨[[]], by rw [elements_slash, hname, List.singleton_append]⟩
    · exact ⟨elements dir, by rw [elements_append, hname]⟩

/-! ### Joined elements -/

theorem joinElements_singleton (e : Bytes) : joinElements [e] = e :=
  List.intercalate_singleton

theorem joinElements_cons_cons (e e' : Bytes) (es : List Bytes) :
    joinElements (e :: e' :: es) = e ++ slash :: joinElements (e' :: es) := by
  rw [joinElements, List.intercalate_cons_cons, List.append_assoc]
  rfl

theorem joinElements_concat (h : es ≠ []) (name : Bytes) :
    joinElements (es ++ [name]) = joinElements es ++ slash :: name := by
  induction es with
  | nil => exact absurd rfl h
  | cons e es ih =>
      cases es with
      | nil =>
          rw [List.singleton_append, joinElements_cons_cons, joinElements_singleton,
            joinElements_singleton]
      | cons e' es =>
          rw [List.cons_append, List.cons_append, joinElements_cons_cons, ← List.cons_append,
            ih (List.cons_ne_nil e' es), joinElements_cons_cons, List.append_assoc,
            List.cons_append]

/-- Elements that say something make up a path that does. -/
theorem joinElements_ne (h : es ≠ []) (hes : ∀ e ∈ es, IsElement e) :
    joinElements es ≠ [] ∧ joinElements es ≠ self ∧ joinElements es ≠ [slash] := by
  cases es with
  | nil => exact absurd rfl h
  | cons e es =>
      obtain ⟨hfree, hnil, hself⟩ := hes e List.mem_cons_self
      cases es with
      | nil =>
          rw [joinElements_singleton]
          refine ⟨hnil, hself, ?_⟩
          rintro rfl
          exact hfree List.mem_cons_self
      | cons e' es =>
          -- behind the first element there is at least a slash
          obtain ⟨b, t, rfl⟩ := List.exists_cons_of_ne_nil hnil
          rw [joinElements_cons_cons]
          simp [self]

/-! ### Cleaned paths -/

/-- The elements of a cleaned path. -/
def cleanElements (p : Bytes) : List Bytes :=
  ((elements p).foldl (push (isRooted p)) []).reverse

/-- A cleaned path consists of its elements. -/
theorem clean_eq (p : Bytes) :
    clean p =
      if isRooted p then slash :: joinElements (cleanElements p)
      else if (joinElements (cleanElements p)).isEmpty then self
      else joinElements (cleanElements p) := rfl

/-- A name is kept. -/
theorem push_of_isName (h : IsName e) : push rooted done e = e :: done := by
  simp [push, h.ne_nil, h.ne_self, h.ne_above]

theorem isElement_push (he : slash ∉ e) (hdone : ∀ x ∈ done, IsElement x) :
    ∀ x ∈ push rooted done e, IsElement x := by
  have habove : IsElement above := ⟨by decide, by decide, by decide⟩
  unfold push
  split
  · exact hdone
  · next hkept =>
      split
      · split
        · split
          · exact hdone
          · simpa using habove
        · next last rest =>
            split
            · exact List.forall_mem_cons.mpr ⟨habove, hdone⟩
            · exact fun x hx => hdone x (List.mem_cons_of_mem last hx)
      · obtain ⟨hnil, hself⟩ : e ≠ [] ∧ e ≠ self := by simpa using hkept
        exact List.forall_mem_cons.mpr ⟨⟨he, hnil, hself⟩, hdone⟩

theorem isElement_foldl_push (hes : ∀ x ∈ es, slash ∉ x) (hdone : ∀ x ∈ done, IsElement x) :
    ∀ x ∈ es.foldl (push rooted) done, IsElement x := by
  induction es generalizing done with
  | nil => exact hdone
  | cons e es ih =>
      obtain ⟨he, hes⟩ := List.forall_mem_cons.mp hes
      exact ih hes (isElement_push he hdone)

/-- A cleaned path has no element that adds nothing to it. -/
theorem isElement_of_mem_cleanElements (p : Bytes) : ∀ x ∈ cleanElements p, IsElement x := by
  intro x hx
  refine isElement_foldl_push (slash_free_of_mem_elements p) ?_ x (List.mem_reverse.mp hx)
  simp

theorem isRooted_append (h : dir ≠ []) (p : Bytes) : isRooted (dir ++ p) = isRooted dir := by
  obtain ⟨b, t, rfl⟩ := List.exists_cons_of_ne_nil h
  rfl

/-- A name behind a directory is one more element. -/
theorem cleanElements_append (hdir : dir ≠ []) (h : IsName name) :
    cleanElements (dir ++ slash :: name) = cleanElements dir ++ [name] := by
  rw [cleanElements, isRooted_append hdir, elements_append, elements_of_slash_free h.slash_free,
    List.foldl_append, List.foldl_cons, List.foldl_nil, push_of_isName h, List.reverse_cons,
    cleanElements]

/-- A name by itself is a clean path. -/
theorem clean_of_isName (h : IsName name) : clean name = name := by
  have hrooted : isRooted name = false := by
    obtain ⟨b, t, rfl⟩ := List.exists_cons_of_ne_nil h.ne_nil
    have hfree := h.slash_free
    rw [List.mem_cons, not_or] at hfree
    simpa [isRooted] using Ne.symm hfree.1
  have helements : cleanElements name = [name] := by
    rw [cleanElements, elements_of_slash_free h.slash_free, List.foldl_cons, List.foldl_nil,
      push_of_isName h, List.reverse_singleton]
  rw [clean_eq, hrooted, helements, joinElements_singleton]
  simp [h.ne_nil]

/-! ### Files -/

/-- The path of a file is that of its directory with one more element. -/
theorem within_clean (dir name : Bytes) :
    within (clean dir) name =
      if isRooted dir then slash :: joinElements (cleanElements dir ++ [name])
      else joinElements (cleanElements dir ++ [name]) := by
  rw [clean_eq]
  by_cases hes : cleanElements dir = []
  · rw [hes, List.nil_append, joinElements_singleton]
    cases isRooted dir <;> simp [within, joinElements, List.intercalate, self, slash]
  · obtain ⟨hnil, hself, hslash⟩ := joinElements_ne hes (isElement_of_mem_cleanElements dir)
    rw [joinElements_concat hes]
    cases isRooted dir with
    | true => simp [within, hnil, self, slash]
    | false => simp [within, hnil, hself, hslash]

/-- Files with different names have different paths. -/
theorem within_injective {name' : Bytes} (h : within dir name = within dir name') :
    name = name' := by
  unfold within at h
  split at h
  · exact h
  · split at h
    · exact (List.cons.inj h).2
    · exact (List.cons.inj (List.append_cancel_left h)).2

/-- **A name that is joined to a directory is the name of a file in it.** -/
theorem join_of_isName (h : IsName name) (dir : Bytes) :
    join dir name = within (clean dir) name := by
  by_cases hdir : dir = []
  · subst hdir
    rw [join, if_pos List.isEmpty_nil, if_neg (by simp [h.ne_nil]), clean_of_isName h]
    rfl
  · have hjoin : join dir name = clean (dir ++ slash :: name) := by
      rw [join, if_neg (by simp [hdir]), if_neg (by simp [h.ne_nil])]
    have hall : ∀ x ∈ cleanElements dir ++ [name], IsElement x := by
      rw [List.forall_mem_append]
      exact ⟨isElement_of_mem_cleanElements dir, by simpa using h.toIsElement⟩
    have hnil := (joinElements_ne (by simp) hall).1
    rw [hjoin, within_clean, clean_eq, isRooted_append hdir, cleanElements_append hdir h]
    simp [hnil]

end Brainfuck.Path
