import BytecodeDebugger.Hook
import BytecodeDebugger.SortedMap

/-!
# Breakpoints

Every source file has a list of flags, the first for line 1; a line beyond the list has none set.
Next to the flags stands one switch for all of them. `flagAt` is the view through which everything
else sees the flags.

The list of a file grows up to the line that is toggled. A line that no list reaches ends the
debugger (`Breakpoints.toggle_beyond`).
-/

namespace BytecodeDebugger

/-- The flags of every file. -/
abbrev BreakpointMap := SortedMap String (List Bool)

/-- The flag of a line. Lines count from 1. -/
def BreakpointMap.flagAt (m : BreakpointMap) (file : String) (line : Nat) : Bool :=
  line ≠ 0 && ((m.get? file).getD []).getD (line - 1) false

/-- A breakpoint was asked for on a line that no file has. -/
structure InvalidLine where
  file : String
  line : Nat
  deriving DecidableEq, Repr

/-- The wording of the refusal. -/
def InvalidLine.message (e : InvalidLine) : String :=
  "line numbers start at 1, got " ++ toString e.line ++ " for " ++ e.file

/-- Flips the flag at a position, after filling up to it with cleared flags. The list has to have room
for the position. -/
def flipAt (flags : List Bool) (i : Nat) : Except Stop (List Bool) :=
  if i < Text.maxLength then
    .ok ((flags ++ List.replicate (i + 1 - flags.length) false).modify i (!·))
  else .error .overflow

/-- Only the flag at the position is another. -/
theorem getD_flipAt {flags flipped : List Bool} {i : Nat} (h : flipAt flags i = .ok flipped) (j : Nat) :
    flipped.getD j false = if j = i then !flags.getD i false else flags.getD j false := by
  -- filling up with cleared flags shows nothing new
  have hfill : ∀ j, (flags ++ List.replicate (i + 1 - flags.length) false).getD j false =
      flags.getD j false := by
    intro j
    simp only [List.getD_eq_getElem?_getD, List.getElem?_append, List.getElem?_replicate]
    grind
  have hlength : i < (flags ++ List.replicate (i + 1 - flags.length) false).length := by
    simp
    omega
  have hflipped :
      flipped = (flags ++ List.replicate (i + 1 - flags.length) false).modify i (!·) := by
    unfold flipAt at h
    split at h <;> cases h
    rfl
  rw [hflipped, ← hfill i, ← hfill j]
  generalize flags ++ List.replicate (i + 1 - flags.length) false = filled at hlength
  simp only [List.getD_eq_getElem?_getD, List.getElem?_modify]
  by_cases hj : j = i
  · subst hj
    simp [hlength]
  · simp [hj, Ne.symm hj]

/-- **The breakpoints and the switch that arms them.** -/
structure Breakpoints where
  flags : BreakpointMap
  stops : Bool

namespace Breakpoints

/-- Flips the breakpoint of a line and says whether it is set now. -/
def toggle (b : Breakpoints) (file : String) (line : Nat) :
    Except Stop (Except InvalidLine (Bool × Breakpoints)) :=
  if line = 0 then .ok (.error ⟨file, line⟩)
  else
    (flipAt ((b.flags.get? file).getD []) (line - 1)).map fun flipped =>
      -- a file may be new, and is then listed with its first flag
      let flags : BreakpointMap := b.flags.insert file flipped
      .ok (flags.flagAt file line, { b with flags })

/-- Whether to stop at a line: its breakpoint is set and breakpoints are armed. -/
def stopsAt (b : Breakpoints) (file : String) (line : Nat) : Bool :=
  b.stops && b.flags.flagAt file line

/-- Arms the breakpoints, or disarms them. -/
def toggleStops (b : Breakpoints) : Breakpoints := { b with stops := !b.stops }

/-- Lists a file, without flags unless it has some. -/
def ensureFile (b : Breakpoints) (file : String) : Breakpoints :=
  if b.flags.contains file then b else { b with flags := b.flags.insert file [] }

/-! ### What the operations do to the view -/

variable {b b' : Breakpoints} {file : String} {line : Nat} {isSet : Bool}

theorem toggle_zero (b : Breakpoints) (file : String) :
    b.toggle file 0 = .ok (.error ⟨file, 0⟩) := rfl

/-- **A line beyond every list ends the debugger.** -/
theorem toggle_beyond (b : Breakpoints) (file : String) (hline : Text.maxLength < line) :
    b.toggle file line = .error .overflow := by
  have hbeyond : ¬ line - 1 < Text.maxLength := by omega
  unfold toggle flipAt
  rw [if_neg (Nat.ne_of_gt (Nat.zero_lt_of_lt hline)), if_neg hbeyond]
  rfl

/-- Every other line can be toggled, except line 0. -/
theorem exists_toggle (b : Breakpoints) (file : String) (hline : line ≠ 0)
    (hroom : line ≤ Text.maxLength) : ∃ isSet b', b.toggle file line = .ok (.ok (isSet, b')) := by
  have hwithin : line - 1 < Text.maxLength := by omega
  unfold toggle flipAt
  rw [if_neg hline, if_pos hwithin]
  exact ⟨_, _, rfl⟩

/-- What a toggle that was made did. -/
theorem toggle_spec (h : b.toggle file line = .ok (.ok (isSet, b'))) :
    line ≠ 0 ∧ ∃ flipped, flipAt ((b.flags.get? file).getD []) (line - 1) = .ok flipped ∧
      b' = { b with flags := b.flags.insert file flipped } ∧
      isSet = b'.flags.flagAt file line := by
  unfold toggle at h
  split at h
  · cases h
  · next hline =>
    cases hflip : flipAt ((b.flags.get? file).getD []) (line - 1) with
    | error reason =>
      rw [hflip] at h
      cases h
    | ok flipped =>
      rw [hflip] at h
      cases h
      exact ⟨hline, flipped, rfl, rfl, rfl⟩

/-- **Toggling flips the flag of one line** and says how it is then. -/
theorem flagAt_toggle (h : b.toggle file line = .ok (.ok (isSet, b'))) (file' : String)
    (line' : Nat) :
    b'.flags.flagAt file' line' =
      if file' = file ∧ line' = line then isSet else b.flags.flagAt file' line' := by
  obtain ⟨hline, flipped, hflip, rfl, hset⟩ := toggle_spec h
  by_cases hsame : file' = file ∧ line' = line
  · obtain ⟨rfl, rfl⟩ := hsame
    rw [if_pos ⟨rfl, rfl⟩, hset]
  · rw [if_neg hsame]
    unfold BreakpointMap.flagAt
    rw [SortedMap.get?_insert]
    split
    · next hfile =>
      subst hfile
      have hother : line' ≠ line := fun hc => hsame ⟨rfl, hc⟩
      rw [Option.getD_some, getD_flipAt hflip]
      -- line 0 has no place in the list, so that it is none of the others
      by_cases hzero : line' = 0
      · simp [hzero]
      · rw [if_neg (by omega)]
    · rfl

/-- A toggle says the opposite of what was set before. -/
theorem isSet_toggle (h : b.toggle file line = .ok (.ok (isSet, b'))) :
    isSet = !b.flags.flagAt file line := by
  obtain ⟨hline, flipped, hflip, rfl, rfl⟩ := toggle_spec h
  unfold BreakpointMap.flagAt
  rw [SortedMap.get?_insert, if_pos rfl, Option.getD_some, getD_flipAt hflip, if_pos rfl]
  simp [hline]

theorem stops_toggle (h : b.toggle file line = .ok (.ok (isSet, b'))) : b'.stops = b.stops := by
  obtain ⟨-, _, -, rfl, -⟩ := toggle_spec h
  rfl

/-- Listing a file sets no flag. -/
theorem flagAt_ensureFile (b : Breakpoints) (file file' : String) (line : Nat) :
    (b.ensureFile file).flags.flagAt file' line = b.flags.flagAt file' line := by
  unfold ensureFile
  split
  · rfl
  · next hlisted =>
    unfold BreakpointMap.flagAt
    rw [SortedMap.get?_insert]
    split
    · next hfile =>
      have hnone : b.flags.get? file = none := by
        unfold SortedMap.contains at hlisted
        simpa using hlisted
      rw [hfile, hnone]
      rfl
    · rfl

theorem stops_ensureFile (b : Breakpoints) (file : String) : (b.ensureFile file).stops = b.stops := by
  unfold ensureFile
  split <;> rfl

end Breakpoints

end BytecodeDebugger
