import BytecodeDebugger.CommandLine.Desk

/-!
# Files that are written are read back

A path leads to the same place after a file was written there: on the way stand directories, and to
write a file touches no directory. Hence the text of a file that was written can be read, and the file
can be written again.

Main statements: `Disk.read_of_write`, `Disk.write_again`.
-/

namespace BytecodeDebugger.Disk

variable {d d' : Disk} {path : String} {text : String} {target : List String}

/-- The disk with a file at a place. -/
def withFile (d : Disk) (target : List String) (bytes : ByteArray) : Disk :=
  ⟨d.nodes.insert (key target.reverse) (.file bytes)⟩

/-- The file stands at its place. -/
theorem node?_withFile (d : Disk) (h : target ≠ []) (bytes : ByteArray) :
    (d.withFile target bytes).node? target = some (.file bytes) := by
  unfold node? withFile
  rw [if_neg (by simpa using h), SortedMap.get?_insert_self]

/-- A directory is still there if a file was put where none stood. -/
theorem directory_withFile (hfree : d.node? target ≠ some .directory) {place : List String}
    (hplace : d.node? place = some .directory) (bytes : ByteArray) :
    (d.withFile target bytes).node? place = some .directory := by
  unfold node? withFile at *
  by_cases htop : place.isEmpty = true
  · rw [if_pos htop]
  · have hbelow : target.isEmpty = false := by
      cases target with
      | nil => exact absurd (if_pos rfl) hfree
      | cons segment outer => rfl
    rw [if_neg htop] at hplace ⊢
    rw [hbelow] at hfree
    rw [SortedMap.get?_insert, if_neg, hplace]
    -- the two places have different keys, since one of them holds a directory
    intro hkey
    exact hfree (hkey ▸ hplace)

/-- **Segments lead to the same place** after a file was put where no directory stood. -/
theorem follow_withFile (hfree : d.node? target ≠ some .directory) (bytes : ByteArray)
    {place reached : List String} {segments : List String}
    (h : d.follow place segments = .ok reached) :
    (d.withFile target bytes).follow place segments = .ok reached := by
  -- along the path: a write puts a file where no directory was, so that no step goes another way
  induction segments generalizing place with
  | nil => exact h
  | cons segment rest ih =>
    unfold follow at h ⊢
    split at h
    · cases h
    · cases h
    · next hdirectory =>
      rw [directory_withFile hfree hdirectory bytes]
      dsimp only
      split at h
      · next hstay =>
        rw [if_pos hstay]
        exact ih h
      · next hmove =>
        rw [if_neg hmove]
        split at h
        · next hup =>
          rw [if_pos hup]
          cases place with
          | nil => cases h
          | cons inner outer => exact ih h
        · next hdown =>
          rw [if_neg hdown]
          exact ih h

/-- A path leads to the same place. -/
theorem locate_withFile (hfree : d.node? target ≠ some .directory) (bytes : ByteArray)
    (h : d.locate path = .ok target) : (d.withFile target bytes).locate path = .ok target := by
  unfold locate at h ⊢
  dsimp only at h ⊢
  split at h
  · cases h
  · split at h
    · cases h
    · next hinside =>
      rw [if_neg hinside]
      exact follow_withFile hfree bytes h

/-- **A file is put where the path leads**, and no directory stands there. -/
theorem put_spec (h : d.put path text = .ok d') :
    ∃ target, d.locate path = .ok target ∧ d.node? target ≠ some .directory ∧
      d' = d.withFile target text.toUTF8 := by
  unfold put at h
  cases hlocate : d.locate path with
  | error fault =>
    rw [hlocate] at h
    cases h
  | ok target =>
    rw [hlocate] at h
    refine ⟨target, rfl, ?_⟩
    simp only [bind, Except.bind] at h
    split at h
    · cases h
    · next hnode =>
      cases h
      exact ⟨by simp [hnode], rfl⟩
    · next hnode =>
      split at h
      · cases h
        exact ⟨by simp [hnode], rfl⟩
      · cases h
      · cases h

/-- A place where a file may be put is not the working directory. -/
theorem ne_nil_of_free (h : d.node? target ≠ some .directory) : target ≠ [] := by
  rintro rfl
  exact h rfl

theorem read_of_put (h : d.put path text = .ok d') : d'.read path = .ok text := by
  obtain ⟨target, hlocate, hfree, rfl⟩ := put_spec h
  have hnode := d.node?_withFile (ne_nil_of_free hfree) text.toUTF8
  have htext : String.fromUTF8? text.toUTF8 = some text := dif_pos text.isValidUTF8
  unfold read readBytes
  rw [locate_withFile hfree _ hlocate]
  simp only [bind, Except.bind, hnode, pure, Except.pure, htext]

theorem put_again (h : d.put path text = .ok d') (text' : String) :
    ∃ d'', d'.put path text' = .ok d'' := by
  obtain ⟨target, hlocate, hfree, rfl⟩ := put_spec h
  have hnode := d.node?_withFile (ne_nil_of_free hfree) text.toUTF8
  unfold put
  rw [locate_withFile hfree _ hlocate]
  simp only [bind, Except.bind, hnode]
  exact ⟨_, rfl⟩

/-- Only a path without a slash at its end can be written. -/
theorem put_of_write (h : d.write path text = .ok d') :
    (stem path = path ∨ stem path = "") ∧ d.put path text = .ok d' := by
  unfold write at h
  -- only a path that ends in a slash is written to under another name, and never with success
  split at h
  · next hstem => exact ⟨hstem, h⟩
  · cases hput : d.put (stem path) text with
    | error fault =>
      rw [hput] at h
      cases h
    | ok d₁ =>
      rw [hput] at h
      cases h

/-- **A text that was written is read back.** -/
theorem read_of_write (h : d.write path text = .ok d') : d'.read path = .ok text :=
  read_of_put (put_of_write h).2

/-- **A file that was written can be written again.** -/
theorem write_again (h : d.write path text = .ok d') (text' : String) :
    ∃ d'', d'.write path text' = .ok d'' := by
  obtain ⟨hstem, hput⟩ := put_of_write h
  unfold write
  rw [if_pos hstem]
  exact put_again hput text'

end BytecodeDebugger.Disk
