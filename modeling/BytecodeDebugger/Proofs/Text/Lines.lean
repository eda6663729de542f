import BytecodeDebugger.Text.Lines

/-!
# Lines that are joined and read again

Texts that are joined by line feeds come apart into the same lines, if each of them is a line
(`Text.IsLine`): it holds no line feed, and no carriage return stands where a line ends. Without any
character the last one of them would not be seen.

Main statement: `Text.lines_intercalate`.
-/

namespace BytecodeDebugger.Text

/-- Cutting at a separator is splitting at it. -/
theorem cut_eq_splitOn (sep : Char) (cs : List Char) : cut sep cs = cs.splitOn sep := by
  induction cs with
  | nil => rfl
  | cons c cs ih =>
    unfold cut
    rw [List.splitOn_cons_eq_if_modifyHead, ← ih]
    simp only [beq_iff_eq]
    split
    · rfl
    · -- a letter joins the first piece, and there always is one
      cases hcut : cut sep cs with
      | nil => exact absurd hcut (cut_ne_nil sep cs)
      | cons piece pieces => rfl

/-- **One line**, as it is read from a text. -/
structure IsLine (s : String) : Prop where
  nonempty : s.toList ≠ []
  unbroken : '\n' ∉ s.toList
  unreturned : s.toList.getLast? ≠ some '\r'

theorem IsLine.withoutReturn {s : String} (h : IsLine s) : withoutReturn s.toList = s.toList :=
  if_neg h.unreturned

/-- **Lines that are joined by line feeds are read again.** -/
theorem lines_intercalate {xs : List String} (h : ∀ x ∈ xs, IsLine x) :
    lines ("\n".intercalate xs) = xs := by
  rcases List.eq_nil_or_concat xs with rfl | ⟨front, last, rfl⟩
  · rfl
  rw [List.concat_eq_append] at h ⊢
  -- no line holds the separator, so that the cuts fall between the lines
  have hcut : cut '\n' ("\n".intercalate (front ++ [last])).toList =
      front.map String.toList ++ [last.toList] := by
    rw [cut_eq_splitOn, String.toList_intercalate]
    refine (List.splitOn_intercalate '\n' ?_ (by simp)).trans List.map_append
    intro line hline
    obtain ⟨x, hx, rfl⟩ := List.mem_map.mp hline
    exact (h x hx).unbroken
  have hfront : (front.map String.toList).map withoutReturn = front.map String.toList := by
    rw [List.map_map]
    exact List.map_congr_left fun x hx => (h x (List.mem_append_left _ hx)).withoutReturn
  have hlast : last.toList ≠ [] := (h last (by simp)).nonempty
  unfold lines
  dsimp only
  rw [hcut, List.dropLast_concat, List.getLast?_concat, hfront]
  -- the last line is not empty, and so it is not taken for the end of a text
  cases hchars : last.toList with
  | nil => exact absurd hchars hlast
  | cons c cs =>
    dsimp only
    rw [← hchars, List.map_append, List.map_map]
    simp

end BytecodeDebugger.Text
