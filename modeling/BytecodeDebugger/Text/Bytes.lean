/-!
# Texts as bytes

The bytes of a text are its UTF-8 form. They read back as the text they come from.
-/

namespace BytecodeDebugger.Text

/-- The bytes of a text. -/
def bytes (s : String) : List UInt8 := s.toUTF8.data.toList

/-- The text that bytes are, if they are one. -/
def ofBytes? (bs : List UInt8) : Option String := String.fromUTF8? ⟨bs.toArray⟩

/-- The bytes of a text, as an array. -/
theorem mk_bytes (s : String) : (⟨(bytes s).toArray⟩ : ByteArray) = s.toUTF8 := by simp [bytes]

@[simp] theorem ofBytes?_bytes (s : String) : ofBytes? (bytes s) = some s := by
  rw [ofBytes?, mk_bytes, String.fromUTF8?]
  exact dif_pos s.isValidUTF8

/-- The first line with its line feed, if it has one, and what follows. -/
def takeLine : List UInt8 → List UInt8 × List UInt8
  | [] => ([], [])
  | b :: bs =>
    if b = 10 then ([b], bs) else let (line, rest) := takeLine bs; (b :: line, rest)

theorem takeLine_append (bs : List UInt8) : (takeLine bs).1 ++ (takeLine bs).2 = bs := by
  induction bs with
  | nil => rfl
  | cons b bs ih => by_cases h : b = 10 <;> simp [takeLine, h, ih]

theorem takeLine_length_lt (b : UInt8) (bs : List UInt8) :
    (takeLine (b :: bs)).2.length < (b :: bs).length := by
  have h := congrArg List.length (takeLine_append bs)
  by_cases hb : b = 10
  · simp [takeLine, hb]
  · simp [takeLine, hb] at h ⊢
    omega

end BytecodeDebugger.Text
