import BytecodeDebugger.Json.Basic
import BytecodeDebugger.Decimal.Notation

/-!
# Writing JSON

Values are written without gaps, or over several lines with two blanks for every level. Texts
escape the quote, the backslash and the control characters, and nothing else. A float keeps the
fewest digits that read back, with a point as long as its magnitude lies between `10 ^ -5` and
`10 ^ 16`.
-/

namespace BytecodeDebugger.Json

/-- A hexadecimal digit. -/
def hexDigit (n : Nat) : Char := (Nat.toDigits 16 (n % 16)).headD '0'

/-- A character inside quotes. -/
def escape (c : Char) : List Char :=
  if c = '"' then ['\\', '"']
  else if c = '\\' then ['\\', '\\']
  else if c = '\n' then ['\\', 'n']
  else if c = '\r' then ['\\', 'r']
  else if c = '\t' then ['\\', 't']
  else if c = '\x08' then ['\\', 'b']
  else if c = '\x0c' then ['\\', 'f']
  else if c.toNat < 0x20 then ['\\', 'u', '0', '0', hexDigit (c.toNat / 16), hexDigit c.toNat]
  else [c]

/-- A text in quotes. -/
def quote (s : String) : List Char := '"' :: s.toList.flatMap escape ++ ['"']

/-- An integer. -/
def intText (n : Int) : List Char :=
  if n < 0 then '-' :: Nat.toDigits 10 n.natAbs else Nat.toDigits 10 n.natAbs

/-- A float; what is no finite number is null. -/
def floatText (x : Float) : List Char :=
  match Binary64.ofFloat x with
  | .finite negative m q =>
    let d := Decimal.shortest m q
    let body :=
      -- zero has no magnitude, and is written with a point
      if d.digits = 0 ∨ (-5 < d.point ∧ d.point ≤ 16) then d.positional 1 else d.scientific
    if negative then '-' :: body else body
  | _ => "null".toList

mutual

/-- A value without gaps. -/
def write : Json → List Char
  | .null => "null".toList
  | .bool b => (if b then "true" else "false").toList
  | .int n => intText n
  | .float x => floatText x
  | .string s => quote s
  | .array items => '[' :: writeItems items
  | .object fields => '\x7b' :: writeFields fields

/-- The items of an array up to the closing bracket. -/
def writeItems : List Json → List Char
  | [] => [']']
  | [j] => write j ++ [']']
  | j :: js => write j ++ ',' :: writeItems js

/-- The fields of an object up to the closing brace. -/
def writeFields : List (String × Json) → List Char
  | [] => ['\x7d']
  | [(k, j)] => quote k ++ ':' :: write j ++ ['\x7d']
  | (k, j) :: fs => quote k ++ ':' :: write j ++ ',' :: writeFields fs

end

/-- The text of a value without gaps. -/
def compact (j : Json) : String := String.ofList j.write

/-- A line break and the blanks of a level. -/
def indent (level : Nat) : List Char := '\n' :: List.replicate (2 * level) ' '

mutual

/-- A value over several lines, inside `level` containers. -/
def spread (level : Nat) : Json → List Char
  | .array [] => ['[', ']']
  | .array items => '[' :: spreadItems level items
  | .object [] => ['\x7b', '\x7d']
  | .object fields => '\x7b' :: spreadFields level fields
  | j => j.write

/-- The items of an array, each on its own line, up to the closing bracket. -/
def spreadItems (level : Nat) : List Json → List Char
  | [] => [']']
  | [j] => indent (level + 1) ++ spread (level + 1) j ++ indent level ++ [']']
  | j :: js => indent (level + 1) ++ spread (level + 1) j ++ ',' :: spreadItems level js

/-- The fields of an object, each on its own line, up to the closing brace. -/
def spreadFields (level : Nat) : List (String × Json) → List Char
  | [] => ['\x7d']
  | [(k, j)] =>
    indent (level + 1) ++ quote k ++ ':' :: ' ' :: spread (level + 1) j ++ indent level ++ ['\x7d']
  | (k, j) :: fs =>
    indent (level + 1) ++ quote k ++ ':' :: ' ' :: spread (level + 1) j ++ ',' ::
      spreadFields level fs

end

/-- The text of a value over several lines. -/
def pretty (j : Json) : String := String.ofList (j.spread 0)

end BytecodeDebugger.Json
