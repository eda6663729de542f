import BytecodeDebugger.Json.Reader
import BytecodeDebugger.Json.Writer

/-!
# Layouts of JSON texts

A value is written without gaps or over several lines, and a reader does not mind which. The two ways
to write it differ in what stands in front of an item, in front of a closing bracket and behind a colon.
A `Layout` says what that is, and `Layout.text` writes a value with it, so that what holds of a text
whatever its gaps has to be proved only once.

Main statements:

* `Json.text_tight` — with no gap anywhere it is the compact text;
* `Json.text_lines` — with a line for each item it is the pretty one.
-/

namespace BytecodeDebugger.Json

/-- **A layout**: the gaps before an item or a closing bracket of each level, and behind a colon. -/
structure Layout where
  line : Nat → List Char
  colon : List Char
  isGap_line : ∀ level, ∀ c ∈ line level, isGap (some c) = true
  isGap_colon : ∀ c ∈ colon, isGap (some c) = true

namespace Layout

/-- No gaps. -/
def tight : Layout where
  line _ := []
  colon := []
  isGap_line _ _ h := by cases h
  isGap_colon _ h := by cases h

/-- A line for each item. -/
def lines : Layout where
  line := indent
  colon := [' ']
  isGap_line level c h := by
    rcases List.mem_cons.mp h with rfl | hblank
    · rfl
    · rw [(List.mem_replicate.mp hblank).2]
      rfl
  isGap_colon c h := by
    rw [List.mem_singleton.mp h]
    rfl

mutual

/-- A value inside `level` containers. -/
def text (L : Layout) (level : Nat) : Json → List Char
  | .array [] => ['[', ']']
  | .array items => '[' :: (L.line (level + 1) ++ L.itemsText level items)
  | .object [] => ['\x7b', '\x7d']
  | .object fields => '\x7b' :: (L.line (level + 1) ++ L.fieldsText level fields)
  | j => j.write

/-- The items of an array, from the first up to the closing bracket. -/
def itemsText (L : Layout) (level : Nat) : List Json → List Char
  | [] => [']']
  | [j] => L.text (level + 1) j ++ (L.line level ++ [']'])
  | j :: js => L.text (level + 1) j ++ ',' :: (L.line (level + 1) ++ L.itemsText level js)

/-- The fields of an object, from the first up to the closing brace. -/
def fieldsText (L : Layout) (level : Nat) : List (String × Json) → List Char
  | [] => ['\x7d']
  | [(k, j)] =>
    quote k ++ ':' :: (L.colon ++ L.text (level + 1) j) ++ (L.line level ++ ['\x7d'])
  | (k, j) :: fs =>
    quote k ++ ':' :: (L.colon ++ L.text (level + 1) j) ++
      ',' :: (L.line (level + 1) ++ L.fieldsText level fs)

end

end Layout

open Layout

/-! ### The compact text -/

mutual

/-- **Without gaps a value is written compactly.** -/
theorem text_tight : ∀ (level : Nat) (j : Json), tight.text level j = j.write
  | _, .null | _, .bool _ | _, .int _ | _, .float _ | _, .string _ => rfl
  | _, .array [] => rfl
  | level, .array (j :: js) => congrArg ('[' :: ·) (itemsText_tight level (j :: js))
  | _, .object [] => rfl
  | level, .object (f :: fs) => congrArg ('\x7b' :: ·) (fieldsText_tight level (f :: fs))

theorem itemsText_tight : ∀ (level : Nat) (js : List Json), tight.itemsText level js = writeItems js
  | _, [] => rfl
  | level, [j] => congrArg (· ++ [']']) (text_tight (level + 1) j)
  | level, j :: j' :: js => by
    have hitem := text_tight (level + 1) j
    have hitems := itemsText_tight level (j' :: js)
    change tight.text (level + 1) j ++ ',' :: tight.itemsText level (j' :: js) = _
    rw [hitem, hitems]
    rfl

theorem fieldsText_tight : ∀ (level : Nat) (fs : List (String × Json)),
    tight.fieldsText level fs = writeFields fs
  | _, [] => rfl
  | level, [(k, j)] => by
    have hvalue := text_tight (level + 1) j
    change quote k ++ ':' :: tight.text (level + 1) j ++ ['\x7d'] = _
    rw [hvalue]
    rfl
  | level, (k, j) :: f :: fs => by
    have hvalue := text_tight (level + 1) j
    have hfields := fieldsText_tight level (f :: fs)
    change quote k ++ ':' :: tight.text (level + 1) j ++ ',' :: tight.fieldsText level (f :: fs) = _
    rw [hvalue, hfields]
    rfl

end

/-! ### The pretty text -/

mutual

/-- **With a line for each item a value is written over several lines.** -/
theorem text_lines : ∀ (level : Nat) (j : Json), lines.text level j = j.spread level
  | _, .null | _, .bool _ | _, .int _ | _, .float _ | _, .string _ => rfl
  | _, .array [] => rfl
  | level, .array (j :: js) =>
    congrArg ('[' :: ·) (itemsText_lines level (List.cons_ne_nil j js))
  | _, .object [] => rfl
  | level, .object (f :: fs) =>
    congrArg ('\x7b' :: ·) (fieldsText_lines level (List.cons_ne_nil f fs))

theorem itemsText_lines : ∀ (level : Nat) {js : List Json}, js ≠ [] →
    indent (level + 1) ++ lines.itemsText level js = spreadItems level js
  | level, [j], _ => by
    -- each item is preceded by its own indentation
    have hitem := text_lines (level + 1) j
    change indent (level + 1) ++ (lines.text (level + 1) j ++ (indent level ++ [']'])) = _
    rw [hitem, ← List.append_assoc, ← List.append_assoc]
    rfl
  | level, j :: j' :: js, _ => by
    have hitem := text_lines (level + 1) j
    have hitems := itemsText_lines level (List.cons_ne_nil j' js)
    change indent (level + 1) ++ (lines.text (level + 1) j ++
      ',' :: (indent (level + 1) ++ lines.itemsText level (j' :: js))) = _
    rw [hitem, hitems, ← List.append_assoc]
    rfl

theorem fieldsText_lines : ∀ (level : Nat) {fs : List (String × Json)}, fs ≠ [] →
    indent (level + 1) ++ lines.fieldsText level fs = spreadFields level fs
  | level, [(k, j)], _ => by
    have hvalue := text_lines (level + 1) j
    change indent (level + 1) ++ (quote k ++ ':' :: ' ' :: lines.text (level + 1) j ++
      (indent level ++ ['\x7d'])) = _
    rw [hvalue, ← List.append_assoc, ← List.append_assoc, ← List.append_assoc]
    rfl
  | level, (k, j) :: f :: fs, _ => by
    have hvalue := text_lines (level + 1) j
    have hfields := fieldsText_lines level (List.cons_ne_nil f fs)
    change indent (level + 1) ++ (quote k ++ ':' :: ' ' :: lines.text (level + 1) j ++
      ',' :: (indent (level + 1) ++ lines.fieldsText level (f :: fs))) = _
    rw [hvalue, hfields, ← List.append_assoc, ← List.append_assoc]
    rfl

end

end BytecodeDebugger.Json
