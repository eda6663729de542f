import BytecodeDebugger.Failure

/-!
# The tag in the text of an error

The text of an indexed error ends in a tag, and readers that see only the text look for the last tag
in it. No tag begins inside another one or among what follows a tag, so that the tag that was
appended is the one that is found, whatever the message says.

Main statements:

* `Text.readCount_toDigits` — a number that is written out is read back, unless it is too large;
* `ErrorIndex.afterLast_tag` — the last tag is the one behind which there is no other;
* `RuntimeError.ofTagged_text` — the index of an error is read back from its text;
* `RuntimeError.tag_survives` — and so it is from a longer text, if no tag begins behind the error's.
-/

namespace BytecodeDebugger

namespace Text

theorem digit?_of_isDigit {c : Char} (h : c.isDigit = true) :
    digit? c = some (c.toNat - '0'.toNat) := by
  have hbounds : '0' ≤ c ∧ c ≤ '9' := by
    simpa [Char.isDigit, Char.le_def] using h
  exact if_pos hbounds

/-- Reading on never makes a number smaller. -/
theorem le_ofDigitChars (cs : List Char) (n : Nat) : n ≤ Nat.ofDigitChars 10 cs n := by
  rw [Nat.ofDigitChars_eq_ofDigitChars_zero]
  have hpow : 1 ≤ 10 ^ cs.length := Nat.one_le_pow _ _ (by decide)
  calc
    n = 1 * n := (Nat.one_mul n).symm
    _ ≤ 10 ^ cs.length * n := Nat.mul_le_mul_right n hpow
    _ ≤ _ := Nat.le_add_right _ _

/-- Digits are read as the number they stand for, as long as it does not exceed the limit. -/
theorem readDigits_of_isDigit {limit : Nat} {cs : List Char} {n : Nat} (hn : n ≤ limit)
    (h : ∀ c ∈ cs, c.isDigit = true) :
    readDigits limit n cs = if Nat.ofDigitChars 10 cs n ≤ limit then
      .ok (Nat.ofDigitChars 10 cs n) else .error .large := by
  induction cs generalizing n with
  | nil => rw [Nat.ofDigitChars_nil, if_pos hn]; rfl
  | cons c cs ih =>
    have hvalue : n * 10 + (c.toNat - '0'.toNat) = 10 * n + (c.toNat - '0'.toNat) := by
      rw [Nat.mul_comm]
    unfold readDigits
    rw [digit?_of_isDigit (h c List.mem_cons_self), Nat.ofDigitChars_cons]
    dsimp only
    rw [hvalue]
    split
    · next hle => exact ih hle fun c hc => h c (List.mem_cons_of_mem _ hc)
    · next hlarge =>
      -- what is too large already stays too large
      have hmore := le_ofDigitChars cs (10 * n + (c.toNat - '0'.toNat))
      rw [if_neg fun hle => hlarge (Nat.le_trans hmore hle)]

/-- **A number that is written out is read back**, unless it exceeds the limit. -/
theorem readCount_toDigits (limit n : Nat) :
    readCount limit (Nat.toDigits 10 n) = if n ≤ limit then .ok n else .error .large := by
  have hdigits : ∀ c ∈ Nat.toDigits 10 n, c.isDigit = true := fun c hc =>
    Nat.isDigit_of_mem_toDigits (by decide) (by decide) hc
  have hread := readDigits_of_isDigit (Nat.zero_le limit) hdigits
  rw [Nat.ofDigitChars_ten_toDigits] at hread
  rw [← hread]
  cases hcs : Nat.toDigits 10 n with
  | nil => exact absurd hcs Nat.toDigits_ne_nil
  | cons c cs =>
    have hc : c.isDigit = true := hdigits c (by rw [hcs]; exact List.mem_cons_self)
    unfold readCount
    -- a digit is no plus sign
    split
    · next heq => cases heq
    · next heq =>
      cases heq
      exact absurd hc (by decide)
    · next heq =>
      cases heq
      exact absurd hc (by decide)
    · rfl

end Text

namespace ErrorIndex

/-- A pattern whose first character does not occur is not found. -/
theorem afterLast_append_of_not_mem {c : Char} {p xs : List Char} (h : c ∉ xs) (ys : List Char) :
    afterLast (c :: p) ys = none → afterLast (c :: p) (xs ++ ys) = none := by
  intro hys
  -- the pattern begins with a letter that is not there, so that no occurrence begins there
  induction xs with
  | nil => exact hys
  | cons x xs ih =>
    rw [List.mem_cons, not_or] at h
    obtain ⟨hx, hxs⟩ := h
    rw [List.cons_append, afterLast, ih hxs]
    dsimp only
    rw [if_neg]
    intro hprefix
    rw [List.isPrefixOf_cons_cons, Bool.and_eq_true, beq_iff_eq] at hprefix
    exact hx hprefix.1

/-- What is found stays found behind other characters. -/
theorem afterLast_append_of_some {p ys rest : List Char} (xs : List Char)
    (h : afterLast p ys = some rest) : afterLast p (xs ++ ys) = some rest := by
  induction xs with
  | nil => exact h
  | cons x xs ih => rw [List.cons_append, afterLast, ih]

/-- A pattern is found wherever it stands. -/
theorem afterLast_eq_none_iff {p : List Char} (hp : p ≠ []) (cs : List Char) :
    afterLast p cs = none ↔ ¬ p <:+: cs := by
  induction cs with
  | nil =>
    have hempty : p.isEmpty ≠ true := fun h => hp (List.isEmpty_iff.mp h)
    rw [afterLast, if_neg hempty, List.infix_nil]
    exact iff_of_true rfl hp
  | cons c cs ih =>
    rw [List.infix_cons_iff, not_or, ← ih, ← List.isPrefixOf_iff_prefix, afterLast]
    cases hrest : afterLast p cs with
    | some rest => simp
    | none => simp

/-- **The last tag** is the one behind which there is no other. -/
theorem afterLast_tag (before rest : List Char) (h : afterLast tag rest = none) :
    afterLast tag (before ++ (tag ++ rest)) = some rest := by
  refine afterLast_append_of_some before ?_
  obtain ⟨inside, htag, hinside⟩ : ∃ inside, tag = '[' :: inside ∧ '[' ∉ inside :=
    ⟨"lua-debugger:error:".toList, by decide, by decide⟩
  rw [htag] at h ⊢
  -- no tag begins inside a tag
  rw [List.cons_append, afterLast, afterLast_append_of_not_mem hinside rest h]
  dsimp only
  have hprefix : ('[' :: inside).isPrefixOf ('[' :: (inside ++ rest)) = true :=
    List.isPrefixOf_iff_prefix.mpr (List.prefix_append ('[' :: inside) rest)
  rw [if_pos hprefix]
  have hdrop : (('[' :: inside) ++ rest).drop ('[' :: inside).length = rest := List.drop_left
  exact congrArg some hdrop

theorem upTo_append {stop : Char} {xs : List Char} (h : stop ∉ xs) (ys : List Char) :
    upTo stop (xs ++ stop :: ys) = some xs := by
  -- up to the first occurrence, which no letter in front of it is
  induction xs with
  | nil => exact if_pos rfl
  | cons x xs ih =>
    rw [List.mem_cons, not_or] at h
    obtain ⟨hx, hxs⟩ := h
    rw [List.cons_append, upTo, if_neg fun heq => hx heq.symm, ih hxs]
    rfl

/-- **A tag is read back**, unless its number is too large, from a text in which no other follows. -/
theorem ofTagged_tag (before after : List Char) (i : ErrorIndex) (h : afterLast tag after = none) :
    ofTagged (String.ofList (before ++ (tag ++ (Nat.toDigits 10 i ++ ']' :: after)))) =
      if i ≤ Text.maxWord then some i else none := by
  have hdigits : ∀ c : Char, c.isDigit = false → c ∉ Nat.toDigits 10 i := by
    intro c hc hmem
    rw [Nat.isDigit_of_mem_toDigits (by decide) (by decide) hmem] at hc
    cases hc
  have hclosing : '[' ∉ [']'] := by decide
  -- digits and bracket hold no further tag
  have hbehind : afterLast tag (Nat.toDigits 10 i ++ ']' :: after) = none :=
    afterLast_append_of_not_mem (hdigits '[' (by decide)) _
      (afterLast_append_of_not_mem hclosing after h)
  unfold ofTagged
  rw [String.toList_ofList, afterLast_tag before _ hbehind]
  change ((upTo ']' (Nat.toDigits 10 i ++ ']' :: after)).bind fun digits =>
    (Text.readCount Text.maxWord digits).toOption) = _
  rw [upTo_append (hdigits ']' (by decide))]
  change (Text.readCount Text.maxWord (Nat.toDigits 10 i)).toOption = _
  rw [Text.readCount_toDigits]
  split <;> rfl

end ErrorIndex

namespace RuntimeError

/-- The characters in the text of an error that has an index. -/
theorem toList_text {e : RuntimeError} {i : ErrorIndex} (h : e.index = some i) :
    e.text.toList =
      (e.message.toList ++ [' ']) ++ (ErrorIndex.tag ++ (Nat.toDigits 10 i ++ [']'])) := by
  unfold RuntimeError.text
  rw [h]
  simp

/-- **The index of an error is read back from its text**, whatever its message says. -/
theorem ofTagged_text {e : RuntimeError} {i : ErrorIndex} (h : e.index = some i) :
    ErrorIndex.ofTagged e.text = if i ≤ Text.maxWord then some i else none := by
  rw [← String.ofList_toList (s := e.text), toList_text h]
  exact ErrorIndex.ofTagged_tag _ [] i rfl

/-- **A tag survives any text around it**: whatever the message says and whatever stands in front of the
error, its index is read back, as long as no tag begins in the text behind the error. -/
theorem tag_survives {e : RuntimeError} {i : ErrorIndex} (hindex : e.index = some i)
    (hword : i ≤ Text.maxWord) (front : String) {behind : String}
    (hbehind : ¬ ErrorIndex.tag <:+: behind.toList) :
    ErrorIndex.ofTagged (front ++ e.text ++ behind) = some i := by
  have hlast : ErrorIndex.afterLast ErrorIndex.tag behind.toList = none :=
    (ErrorIndex.afterLast_eq_none_iff (by decide) _).mpr hbehind
  -- the message, and all that stands in front of it, is text in front of the tag
  have hchars : (front ++ e.text ++ behind).toList =
      (front.toList ++ (e.message.toList ++ [' '])) ++
        (ErrorIndex.tag ++ (Nat.toDigits 10 i ++ ']' :: behind.toList)) := by
    rw [String.toList_append, String.toList_append, toList_text hindex]
    simp
  rw [← String.ofList_toList (s := front ++ e.text ++ behind), hchars,
    ErrorIndex.ofTagged_tag _ _ i hlast, if_pos hword]

/-- The largest index, in a message that ends in the beginning of a tag and between texts with tags and
parts of tags of their own. -/
theorem tag_among_others :
    let e : RuntimeError :=
      { message := "] [lua-debugger:error:7] [lua-debugger:error:", index := some 18446744073709551615 }
    ¬ ErrorIndex.tag <:+: "] [lua-debugger:error".toList ∧
      ErrorIndex.ofTagged ("[lua-debugger:error:3" ++ e.text ++ "] [lua-debugger:error") =
        some 18446744073709551615 := by
  have hbehind : ¬ ErrorIndex.tag <:+: "] [lua-debugger:error".toList :=
    (ErrorIndex.afterLast_eq_none_iff (by decide) _).mp (by decide)
  exact ⟨hbehind, tag_survives rfl (by decide) _ hbehind⟩

end RuntimeError

end BytecodeDebugger
