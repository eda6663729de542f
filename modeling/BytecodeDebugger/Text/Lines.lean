/-!
# The lines of a text

A line feed ends a line, alone or behind a carriage return; what follows the last line feed is a
line too, unless it is empty.
-/

namespace BytecodeDebugger.Text

/-- Cuts at every `sep`; `n` separators leave `n + 1` pieces. -/
def cut (sep : Char) : List Char → List (List Char)
  | [] => [[]]
  | c :: cs =>
    if c = sep then [] :: cut sep cs
    else match cut sep cs with
      | [] => [[c]]
      | piece :: pieces => (c :: piece) :: pieces

theorem cut_ne_nil (sep : Char) (cs : List Char) : cut sep cs ≠ [] := by
  cases cs with
  | nil => simp [cut]
  | cons c cs => unfold cut; split; · simp
                 · split <;> simp

/-- A line without the carriage return at its end. -/
def withoutReturn (line : List Char) : List Char :=
  if line.getLast? = some '\r' then line.dropLast else line

/-- The lines of a text, without what ends them. Only a line feed makes the carriage return before
it part of the line's end. -/
def lines (s : String) : List String :=
  let pieces := cut '\n' s.toList
  let closed := pieces.dropLast.map withoutReturn
  let open? := match pieces.getLast? with
    | none | some [] => []
    | some rest => [rest]
  (closed ++ open?).map String.ofList

end BytecodeDebugger.Text
