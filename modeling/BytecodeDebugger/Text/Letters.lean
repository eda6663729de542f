/-!
# Letters of a byte sequence

Bytes are read as UTF-8. A byte that belongs to no character is a letter of its own, so that a
reader of the letters decides where it matters.
-/

namespace BytecodeDebugger.Text

/-- A character, or a byte that belongs to none. -/
abbrev Letter := Option Char

/-- The letters of a text. -/
def letters (s : String) : List Letter := s.toList.map some

/-- The letters from position `i` on, at most `fuel` of them. -/
def lettersFrom (bytes : ByteArray) : Nat → Nat → List Letter
  | 0, _ => []
  | fuel + 1, i =>
    if i < bytes.size then
      match bytes.utf8DecodeChar? i with
      | some c => some c :: lettersFrom bytes fuel (i + c.utf8Size)
      | none => none :: lettersFrom bytes fuel (i + 1)
    else []

/-- The letters of a byte sequence. -/
def lettersOf (bytes : ByteArray) : List Letter :=
  match String.fromUTF8? bytes with
  | some s => letters s
  | none => lettersFrom bytes bytes.size 0

/-- How many bytes a letter takes. -/
def Letter.size : Letter → Nat
  | some c => c.utf8Size
  | none => 1

end BytecodeDebugger.Text
