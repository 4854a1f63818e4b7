import Brainfuck.Disk

/-!
# Reading and writing disks

A file that was written is read back, although its path is resolved anew on a changed disk. So is a
database.

## Main Definitions

* `Disk.Spares` — a change after which paths lead to a location as before, with the same node there

## Main Results

* `Disk.node?_set_self`, `Disk.node?_set_of_ne` — what the locations hold after one has changed
* `Disk.walk_set` — a path leads to where it led before, if what changed was no directory
* `Disk.read_of_write` — a written file is read back
* `Disk.exists_write` — whether a file can be written does not depend on its content
* `Disk.database_set` — a database that was changed is found as it is now
* `Disk.spares_makeDirectories`, `Disk.spares_write` — directories are made, and files written,
  without harm to other nodes
-/

namespace Brainfuck.Disk

variable {d d' : Disk} {l l' here : Location} {path content : Bytes}

theorem node?_set_self (d : Disk) (hl : l ≠ []) (n : Node) : (d.set l n).node? l = some n := by
  simp [node?, set, hl]

theorem lookup_filter_of_ne (hne : l' ≠ l) (nodes : List (Location × Node)) :
    (nodes.filter (·.1 != l)).lookup l' = nodes.lookup l' := by
  induction nodes with
  | nil => rfl
  | cons entry nodes ih =>
      obtain ⟨k, n⟩ := entry
      by_cases hk : k = l
      · have hskip : (l' == k) = false := by simpa [hk] using hne
        rw [List.filter_cons_of_neg (by simp [hk]), List.lookup_cons, hskip, ih]
      · rw [List.filter_cons_of_pos (by simp [hk]), List.lookup_cons, List.lookup_cons, ih]

theorem node?_set_of_ne (d : Disk) (hne : l' ≠ l) (n : Node) :
    (d.set l n).node? l' = d.node? l' := by
  have hhead : (l' == l) = false := by simpa using hne
  simp only [node?, set, List.lookup_cons, hhead, lookup_filter_of_ne hne]

/-- A directory stays one if what changes is none. -/
theorem node?_set_directory (hl : d.node? l ≠ some .directory)
    (hhere : d.node? here = some .directory) (n : Node) :
    (d.set l n).node? here = some .directory := by
  have hne : here ≠ l := by
    rintro rfl
    exact hl hhere
  rw [node?_set_of_ne d hne, hhere]

/-- A path leads to where it led before if what changes is no directory: nothing but directories is
looked at on the way. -/
theorem walk_set (hl : d.node? l ≠ some .directory) (n : Node) {es : List Bytes}
    (h : d.walk here es = .ok l') : (d.set l n).walk here es = .ok l' := by
  fun_induction walk d here es with
  | case1 here => exact h
  | case2 => cases h
  | case3 here e rest hhere hself ih =>
      rw [walk, node?_set_directory hl hhere]
      simp only [hself, if_true]
      exact ih h
  | case4 here e rest hhere hself habove ih =>
      rw [walk, node?_set_directory hl hhere]
      simp only [hself, habove, if_true]
      exact ih h
  | case5 => cases h
  | case6 here e rest hhere hself habove hlength ih =>
      rw [walk, node?_set_directory hl hhere]
      simp only [hself, habove, hlength, if_false]
      exact ih h
  | case7 => cases h

theorem locate_set (hl : d.node? l ≠ some .directory) (n : Node) (h : d.locate path = .ok l') :
    (d.set l n).locate path = .ok l' := by
  unfold locate at h ⊢
  split at h
  · cases h
  next hempty =>
    split at h
    · cases h
    next hbytes =>
      split at h
      · cases h
      next hlength =>
        rw [if_neg hempty, if_neg hbytes, if_neg hlength]
        exact walk_set hl n h

/-- How a file is written: its path leads to a location that holds no directory. -/
theorem write_eq_ok (h : d.write path content = (.ok (), d')) :
    ∃ l, d.locate path = .ok l ∧ d.node? l ≠ some .directory ∧ d' = d.set l (.file content) := by
  unfold write at h
  split at h
  · cases h
  · next l hlocate =>
      split at h
      · cases h
      · next hnode =>
          cases h
          exact ⟨l, hlocate, hnode, rfl⟩

/-- A written file is read back. -/
theorem read_of_write (h : d.write path content = (.ok (), d')) : d'.read path = .ok content := by
  obtain ⟨l, hlocate, hnode, rfl⟩ := write_eq_ok h
  -- the root always is a directory, whatever the nodes say
  have hroot : l ≠ [] := by
    rintro rfl
    exact hnode rfl
  have hstat : (d.set l (.file content)).stat path = .ok (.file content) := by
    rw [stat, locate_set hnode _ hlocate]
    simp only [bind, Except.bind, node?_set_self d hroot]
  rw [read, hstat]

/-- Whether a file can be written does not depend on its content. -/
theorem exists_write (h : d.write path content = (.ok (), d')) (content' : Bytes) :
    ∃ d'', d.write path content' = (.ok (), d'') := by
  obtain ⟨l, hlocate, hnode, -⟩ := write_eq_ok h
  refine ⟨d.set l (.file content'), ?_⟩
  unfold write
  rw [hlocate]
  dsimp only
  split
  · next hdirectory => exact absurd hdirectory hnode
  · rfl

/-- Where a database is: its path leads to a location that holds no directory. -/
theorem database_eq_ok {db : Database} (h : d.database path = .ok (l, db)) :
    d.locate path = .ok l ∧ d.node? l ≠ some .directory := by
  unfold database at h
  split at h
  · cases h
  · next l' hlocate =>
      split at h
      · next hnode =>
          cases h
          exact ⟨hlocate, by simp [hnode]⟩
      · cases h
      · next hnode =>
          split at h
          · cases h
            exact ⟨hlocate, by simp [hnode]⟩
          · cases h
      · next hnode =>
          cases h
          exact ⟨hlocate, by simp [hnode]⟩

/-- A database that was changed is found at its path as it is now. -/
theorem database_set {db : Database} (h : d.database path = .ok (l, db)) (db' : Database) :
    (d.set l (.database db')).database path = .ok (l, db') := by
  obtain ⟨hlocate, hnode⟩ := database_eq_ok h
  have hroot : l ≠ [] := by
    rintro rfl
    exact hnode rfl
  rw [database, locate_set hnode _ hlocate]
  simp only [node?_set_self d hroot]

/-! ### What a change spares -/

/-- A path leads to a location that holds a node. -/
structure Leads (d : Disk) (path : Bytes) (l : Location) (n : Node) : Prop where
  locate : d.locate path = .ok l
  node : d.node? l = some n

/-- A change of a disk that spares a location: the paths that led to a node there still do. -/
structure Spares (l : Location) (d d' : Disk) : Prop where
  working : d'.working = d.working
  leads : ∀ {path : Bytes} {n : Node}, d.Leads path l n → d'.Leads path l n

theorem Spares.refl (l : Location) (d : Disk) : Spares l d d :=
  ⟨rfl, id⟩

theorem Spares.trans {d'' : Disk} (h : Spares l d d') (h' : Spares l d' d'') : Spares l d d'' :=
  ⟨h'.working.trans h.working, fun hleads => h'.leads (h.leads hleads)⟩

theorem spares_set (hnode : d.node? l' ≠ some .directory) (hne : l' ≠ l) (n : Node) :
    Spares l d (d.set l' n) := by
  refine ⟨rfl, ?_⟩
  intro path n' hleads
  refine ⟨locate_set hnode n hleads.locate, ?_⟩
  rw [node?_set_of_ne d (Ne.symm hne)]
  exact hleads.node

theorem spares_makeDirectory (h : d.makeDirectory path = .ok d') (l : Location) :
    Spares l d d' := by
  unfold makeDirectory at h
  dsimp only at h
  split at h
  · cases h
  · next l' _ =>
      split at h
      · cases h
      · next hnone =>
          cases h
          by_cases hne : l' = l
          · -- nothing leads to a node where a directory is made
            subst hne
            refine ⟨rfl, ?_⟩
            intro path n hleads
            rw [hleads.node] at hnone
            cases hnone
          · exact spares_set (by simp [hnone]) hne _

theorem spares_makeDirectoriesWithin (d : Disk) (path : Bytes) (depth : Nat) (l : Location) :
    Spares l d (d.makeDirectoriesWithin path depth).2 := by
  induction depth generalizing path with
  | zero => exact .refl l d
  | succ depth ih =>
      unfold makeDirectoriesWithin
      split
      · exact .refl l d
      · exact .refl l d
      · split
        next r d₁ habove =>
          have hspares : Spares l d d₁ := by
            split at habove
            · cases habove
              exact .refl l d
            · next parent _ =>
                have hparent := ih parent
                rw [habove] at hparent
                exact hparent
          split
          · exact hspares
          · split
            · next hmake => exact hspares.trans (spares_makeDirectory hmake l)
            · split <;> exact hspares

theorem spares_makeDirectories (d : Disk) (path : Bytes) (l : Location) :
    Spares l d (d.makeDirectories path).2 :=
  spares_makeDirectoriesWithin d path _ l

/-- Writing a file spares every location but the one that its path leads to. -/
theorem spares_write (h : d.locate path ≠ .ok l) (content : Bytes) :
    Spares l d (d.write path content).2 := by
  unfold write
  split
  · exact .refl l d
  · next l' hlocate =>
      split
      · exact .refl l d
      · next hnode =>
          refine spares_set hnode ?_ _
          rintro rfl
          exact h hlocate

/-- A file is read as before if its location is spared. -/
theorem Spares.read (h : Spares l d d') (hlocate : d.locate path = .ok l)
    (hread : d.read path = .ok content) : d'.read path = .ok content := by
  have hstat {d : Disk} {n : Node} (hleads : d.Leads path l n) : d.stat path = .ok n := by
    rw [stat, hleads.locate]
    simp only [bind, Except.bind, hleads.node]
  cases hnode : d.node? l with
  | none =>
      rw [Disk.read, stat, hlocate] at hread
      simp only [bind, Except.bind, hnode] at hread
      cases hread
  | some n =>
      have hleads : d.Leads path l n := ⟨hlocate, hnode⟩
      rw [Disk.read, hstat hleads] at hread
      rw [Disk.read, hstat (h.leads hleads)]
      exact hread

/-- A database that has a table is found again if its location is spared. -/
theorem Spares.database {db : Database} (h : Spares l d d')
    (hdb : d.database path = .ok (l, db)) (hne : db ≠ Database.empty) :
    d'.database path = .ok (l, db) := by
  have hleads : d.Leads path l (.database db) := by
    refine ⟨(database_eq_ok hdb).1, ?_⟩
    rw [Disk.database, (database_eq_ok hdb).1] at hdb
    dsimp only at hdb
    split at hdb
    · cases hdb
      exact absurd rfl hne
    · cases hdb
    · split at hdb
      · cases hdb
        exact absurd rfl hne
      · cases hdb
    · next hnode =>
        cases hdb
        exact hnode
  rw [Disk.database, (h.leads hleads).locate]
  simp only [(h.leads hleads).node]

end Brainfuck.Disk
