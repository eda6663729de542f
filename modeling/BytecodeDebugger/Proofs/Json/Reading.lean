import BytecodeDebugger.Proofs.Json.Layout
import BytecodeDebugger.Proofs.Json.Plain
import BytecodeDebugger.Proofs.Text.Tag
import Mathlib.Algebra.Group.Nat.Defs

/-!
# JSON that is written is read back

The reader takes from a text exactly what the writer put there, whatever the gaps and whatever follows,
provided that no number goes on in what follows. Escapes are undone, digits make up the number they were
made from, and brackets and commas stand where the reader looks for them.

Main statement: `Json.readValue_text`, for every layout and every plain value.
-/

namespace BytecodeDebugger.Json

open Text (Letter)

/-! ### Numbers -/

/-- The number that a digit stands for. -/
def digitValue (c : Char) : Nat := c.toNat - '0'.toNat

/-- **No number goes on here.** -/
def EndsNumber (rest : List Letter) : Prop :=
  ∀ c ls, rest = some c :: ls → Text.digit? c = none ∧ c ≠ '.' ∧ c ≠ 'e' ∧ c ≠ 'E'

theorem endsNumber_nil : EndsNumber [] := fun _ _ h => by cases h

theorem readDigits_append {cs : List Char} (hcs : ∀ c ∈ cs, c.isDigit = true) {rest : List Letter}
    (hrest : EndsNumber rest) :
    readDigits (cs.map some ++ rest) = (cs.map digitValue, rest) := by
  -- over the digits; behind them stands nothing that would continue a number
  induction cs with
  | nil =>
    cases rest with
    | nil => rfl
    | cons l ls =>
      cases l with
      | none => rfl
      | some c =>
        change readDigits (some c :: ls) = _
        unfold readDigits
        rw [(hrest c ls rfl).1]
        rfl
  | cons c cs ih =>
    change readDigits (some c :: (cs.map some ++ rest)) = _
    unfold readDigits
    rw [Text.digit?_of_isDigit (hcs c List.mem_cons_self),
      ih fun c hc => hcs c (List.mem_cons_of_mem _ hc)]
    rfl

/-- Digits that do not make too large a number are all kept. -/
theorem Numeral.keptDigits_of_le {cs : List Char} {n : Nat}
    (h : Nat.ofDigitChars 10 cs n ≤ Text.maxWord) :
    keptDigits n (cs.map digitValue) = (Nat.ofDigitChars 10 cs n, cs.length, 0) := by
  induction cs generalizing n with
  | nil => rw [Nat.ofDigitChars_nil]; rfl
  | cons c cs ih =>
    rw [Nat.ofDigitChars_cons] at h ⊢
    have hvalue : n * 10 + digitValue c = 10 * n + (c.toNat - '0'.toNat) := by
      rw [Nat.mul_comm]
      rfl
    -- each further digit makes the number larger, so that all of them fit if the whole does
    have hle := Nat.le_trans (Text.le_ofDigitChars cs _) h
    rw [List.map_cons, keptDigits, hvalue, if_pos hle, ih h]
    rfl

/-- Few digits make a small number. -/
theorem ofDigitChars_lt {cs : List Char} (hcs : ∀ c ∈ cs, c.isDigit = true) (n : Nat) :
    Nat.ofDigitChars 10 cs n < (n + 1) * 10 ^ cs.length := by
  induction cs generalizing n with
  | nil => simp
  | cons c cs ih =>
    have hdigit : c.toNat - '0'.toNat ≤ 9 := by
      have hc := hcs c List.mem_cons_self
      simp only [Char.isDigit, Bool.and_eq_true, decide_eq_true_eq] at hc
      have hle : c.toNat ≤ 57 := hc.2
      have hzero : '0'.toNat = 48 := rfl
      omega
    rw [Nat.ofDigitChars_cons]
    calc
      _ < (10 * n + (c.toNat - '0'.toNat) + 1) * 10 ^ cs.length :=
        ih (fun c hc => hcs c (List.mem_cons_of_mem _ hc)) _
      _ ≤ ((n + 1) * 10) * 10 ^ cs.length := Nat.mul_le_mul_right _ (by omega)
      _ = (n + 1) * 10 ^ (c :: cs).length := by
        rw [List.length_cons, Nat.pow_succ, Nat.mul_assoc, Nat.mul_comm 10]

/-- **A number is not written with a zero in front**, unless it is zero. -/
theorem toDigits_leading (n : Nat) {c : Char} {cs : List Char} (h : Nat.toDigits 10 n = c :: cs)
    (hzero : digitValue c = 0) : cs = [] := by
  refine Decidable.byContradiction fun hne => ?_
  have hdigits : ∀ d ∈ c :: cs, d.isDigit = true := fun d hd =>
    Nat.isDigit_of_mem_toDigits (by decide) (by decide) (h ▸ hd)
  have hpos : 0 < cs.length := List.length_pos_iff.mpr hne
  -- the other digits would already make the number
  have hvalue : Nat.ofDigitChars 10 cs 0 = n := by
    have hread := Nat.ofDigitChars_ten_toDigits (n := n)
    rw [h, Nat.ofDigitChars_cons] at hread
    have hnothing : 10 * 0 + (c.toNat - '0'.toNat) = 0 := by
      rw [Nat.mul_zero, Nat.zero_add]
      exact hzero
    rwa [hnothing] at hread
  have hsmall := ofDigitChars_lt (fun d hd => hdigits d (List.mem_cons_of_mem _ hd)) 0
  rw [hvalue, Nat.zero_add, Nat.one_mul] at hsmall
  have hshort := (Nat.length_toDigits_le_iff (by decide) hpos).mpr hsmall
  rw [h, List.length_cons] at hshort
  omega

/-- The digits of a number make up a number without point and exponent. -/
theorem readNumber_toDigits (negative : Bool) (n : Nat) {rest : List Letter}
    (hrest : EndsNumber rest) :
    readNumber negative ((Nat.toDigits 10 n).map some ++ rest) =
      ⟨(Numeral.ofDigits negative ((Nat.toDigits 10 n).map digitValue) none none).draft,
        some rest⟩ := by
  have hdigits : ∀ c ∈ Nat.toDigits 10 n, c.isDigit = true := fun c hc =>
    Nat.isDigit_of_mem_toDigits (by decide) (by decide) hc
  unfold readNumber
  rw [readDigits_append hdigits hrest]
  cases hcs : Nat.toDigits 10 n with
  | nil => exact absurd hcs Nat.toDigits_ne_nil
  | cons c cs =>
    rw [List.map_cons]
    -- only the number zero is written with a zero in front
    have hleading : ¬ ((digitValue c :: cs.map digitValue).head? = some 0 ∧
        (digitValue c :: cs.map digitValue).length ≠ 1) := by
      rintro ⟨hzero, hlength⟩
      rw [toDigits_leading n hcs (Option.some.inj hzero)] at hlength
      exact hlength rfl
    dsimp only
    rw [if_neg hleading]
    cases rest with
    | nil => rfl
    | cons l ls =>
      cases l with
      | none => rfl
      | some d =>
        -- what follows begins neither a fraction nor an exponent
        obtain ⟨-, hpoint, hsmall, hlarge⟩ := hrest d ls rfl
        have hexponent : ¬ (d = 'e' || d = 'E') = true := by simp [hsmall, hlarge]
        split
        · next heq =>
          cases heq
          exact absurd rfl hpoint
        · unfold readExponent
          dsimp only
          rw [if_neg hexponent]

namespace Numeral

theorem keptDigits_toDigits {n : Nat} (h : n ≤ Text.maxWord) :
    keptDigits 0 ((Nat.toDigits 10 n).map digitValue) = (n, (Nat.toDigits 10 n).length, 0) := by
  have hvalue := Nat.ofDigitChars_ten_toDigits (n := n)
  rw [keptDigits_of_le (by rw [hvalue]; exact h), hvalue]

/-- A natural number of 64 bits keeps its value. -/
theorem ofDigits_toDigits {n : Nat} (h : n ≤ Text.maxWord) :
    ofDigits false ((Nat.toDigits 10 n).map digitValue) none none = .int n := by
  unfold ofDigits
  rw [keptDigits_toDigits h]
  rfl

/-- A negative number of 64 bits keeps its value. -/
theorem ofDigits_toDigits_negative {n : Nat} (hpos : 0 < n) (h : n ≤ 2 ^ 63) :
    ofDigits true ((Nat.toDigits 10 n).map digitValue) none none = .int (-(n : Int)) := by
  have hword : n ≤ Text.maxWord := Nat.le_trans h (by decide)
  have hsmall : ¬ (n = 0 || decide (Nat.pow 2 63 < n)) = true := by
    simp only [Bool.or_eq_true, decide_eq_true_eq]
    rintro (hzero | hlarge)
    · omega
    · exact absurd (Nat.lt_of_lt_of_le hlarge h) (Nat.lt_irrefl _)
  unfold ofDigits
  rw [keptDigits_toDigits hword]
  dsimp only
  rw [if_neg (fun hne => hne rfl), if_neg (by decide), if_neg hsmall]

end Numeral

/-! ### Texts -/

/-- The number of a control character is read back from its hexadecimal digits. -/
theorem readUnit_hexDigit {n : Nat} (h : n < 32) (rest : List Letter) :
    readUnit (some '0' :: some '0' :: some (hexDigit (n / 16)) :: some (hexDigit n) :: rest) =
      .ok (n, rest) := by
  have hdigits : ∀ n < 32, hexDigit? (hexDigit (n / 16)) = some (n / 16) ∧
      hexDigit? (hexDigit n) = some (n % 16) ∧
      (hexDigit (n / 16)).utf8Size = 1 ∧ (hexDigit n).utf8Size = 1 := by
    decide
  obtain ⟨hhigh, hlow, hsize, hsize'⟩ := hdigits n h
  have hzero : hexDigit? '0' = some 0 := by decide
  have hzerosize : '0'.utf8Size = 1 := by decide
  have hvalue : n / 16 * 16 + n % 16 = n := Nat.div_add_mod' n 16
  simp [readUnit, Text.Letter.size, hhigh, hlow, hsize, hsize', hzero, hzerosize, hvalue]

/-- **An escape is undone.** -/
theorem readQuoted_escape (fuel : Nat) (q : Quoted) (c : Char) (ls : List Letter) :
    readQuoted (fuel + 1) q ((escape c).map some ++ ls) =
      readQuoted fuel { q with done := c :: q.done } ls := by
  unfold escape
  -- the escapes of one letter
  iterate 7
    split
    · next h =>
      subst h
      rfl
  split
  · next hcontrol =>
    -- a control character is no half of a pair
    have hvalid : ¬ (0xDC00 ≤ c.toNat ∧ c.toNat ≤ 0xDFFF) := by omega
    have halone : c.toNat < 0xD800 ∨ 0xDBFF < c.toNat := by omega
    change readQuoted (fuel + 1) q (some '\\' :: some 'u' :: some '0' :: some '0' ::
      some (hexDigit (c.toNat / 16)) :: some (hexDigit c.toNat) :: ls) = _
    simp [readQuoted, readUnit_hexDigit hcontrol, hvalid, halone]
  · next hquote hbackslash _ _ _ _ _ hprinted =>
    change readQuoted (fuel + 1) q (some c :: ls) = _
    rw [readQuoted.eq_def]
    dsimp only
    rw [if_neg hquote, if_neg hprinted, if_pos hbackslash]

/-- **A text is read back** from its quotes. -/
theorem readQuoted_flatMap_escape {cs : List Char} {fuel : Nat} (hfuel : cs.length < fuel)
    (done : List Char) (rest : List Letter) :
    readQuoted fuel ⟨done, false, false⟩ ((cs.flatMap escape).map some ++ some '"' :: rest) =
      ⟨.string (String.ofList (done.reverse ++ cs)), some rest⟩ := by
  -- over the characters, each of which is read back from its escape in one step
  induction cs generalizing fuel done with
  | nil =>
    cases fuel with
    | zero => cases hfuel
    | succ fuel =>
      rw [List.append_nil]
      rfl
  | cons c cs ih =>
    cases fuel with
    | zero => cases hfuel
    | succ fuel =>
      rw [List.flatMap_cons, List.map_append, List.append_assoc, readQuoted_escape,
        ih (Nat.lt_of_succ_lt_succ hfuel), List.reverse_cons, List.append_assoc]
      rfl

/-- Every character is written with one at least. -/
theorem length_le_flatMap_escape (cs : List Char) : cs.length ≤ (cs.flatMap escape).length := by
  induction cs with
  | nil => exact Nat.le_refl _
  | cons c cs ih =>
    have hone : 1 ≤ (escape c).length := by
      unfold escape
      repeat' split
      all_goals exact Nat.succ_le_succ (Nat.zero_le _)
    rw [List.flatMap_cons, List.length_append, List.length_cons]
    omega

/-! ### Gaps -/

section Gaps

variable {gap : List Char} (hgap : ∀ c ∈ gap, isGap (some c) = true)

include hgap

/-- Gaps are skipped. -/
theorem skipGaps_gaps (ls : List Letter) : skipGaps (gap.map some ++ ls) = skipGaps ls := by
  refine List.dropWhile_append_of_pos fun l hl => ?_
  obtain ⟨c, hc, rfl⟩ := List.mem_map.mp hl
  exact hgap c hc

/-- A value is read behind gaps as it is without them. -/
theorem readValue_gaps (fuel : Nat) (ls : List Letter) :
    readValue fuel (gap.map some ++ ls) = readValue fuel ls := by
  cases fuel with
  | zero => rfl
  | succ fuel => rw [readValue, readValue, skipGaps_gaps hgap]

/-- No number goes on behind a gap. -/
theorem endsNumber_gaps {ls : List Letter} (h : EndsNumber ls) : EndsNumber (gap.map some ++ ls) := by
  cases gap with
  | nil => exact h
  | cons c cs =>
    rintro _ ls' ⟨⟩
    have hblank : ((c = ' ' ∨ c = '\n') ∨ c = '\t') ∨ c = '\r' := by
      simpa [isGap] using hgap c List.mem_cons_self
    rcases hblank with ((rfl | rfl) | rfl) | rfl <;> decide

end Gaps

theorem skipGaps_cons {c : Char} (h : isGap (some c) = false) (ls : List Letter) :
    skipGaps (some c :: ls) = some c :: ls :=
  List.dropWhile_cons_of_neg (by rw [h]; exact Bool.false_ne_true)

/-- A number ends before a character that it cannot hold. -/
theorem endsNumber_cons {c : Char} (h : c = ',' ∨ c = ']' ∨ c = '\x7d') (ls : List Letter) :
    EndsNumber (some c :: ls) := by
  rintro d ls' ⟨⟩
  rcases h with rfl | rfl | rfl <;> decide

/-! ### Values -/

/-- Digits begin a number. -/
theorem toDigits_head (n : Nat) : ∃ c cs, Nat.toDigits 10 n = c :: cs ∧ c.isDigit = true := by
  cases hcs : Nat.toDigits 10 n with
  | nil => exact absurd hcs Nat.toDigits_ne_nil
  | cons c cs =>
    refine ⟨c, cs, rfl, ?_⟩
    exact Nat.isDigit_of_mem_toDigits (by decide) (by decide) (hcs ▸ List.mem_cons_self)

theorem isDigit_ne {c d : Char} (hc : c.isDigit = true) (hd : d.isDigit = false) : c ≠ d := by
  rintro rfl
  rw [hd] at hc
  cases hc

/-- **An integer is read back.** -/
theorem readValue_intText {n : Int} (h : minWord ≤ n ∧ n ≤ Text.maxWord) (fuel : Nat)
    {rest : List Letter} (hrest : EndsNumber rest) :
    readValue (fuel + 1) ((intText n).map some ++ rest) = ⟨.int n, some rest⟩ := by
  unfold minWord Text.maxWord at h
  by_cases hnegative : n < 0
  · obtain ⟨m, rfl⟩ := Int.exists_eq_neg_ofNat (Int.le_of_lt hnegative)
    have hread := Numeral.ofDigits_toDigits_negative (n := m) (by omega) (by omega)
    have htext : intText (-(m : Int)) = '-' :: Nat.toDigits 10 m := by
      rw [intText, if_pos hnegative, Int.natAbs_neg, Int.natAbs_natCast]
    rw [htext, readValue]
    change readNumber true ((Nat.toDigits 10 m).map some ++ rest) = _
    rw [readNumber_toDigits true m hrest, hread]
    rfl
  · obtain ⟨m, rfl⟩ := Int.eq_ofNat_of_zero_le (Int.not_lt.mp hnegative)
    have hword : m ≤ Text.maxWord := Int.ofNat_le.mp h.2
    have htext : intText m = Nat.toDigits 10 m := by
      rw [intText, if_neg hnegative, Int.natAbs_natCast]
    have hnumber := readNumber_toDigits false m hrest
    rw [Numeral.ofDigits_toDigits hword] at hnumber
    obtain ⟨c, cs, hcs, hdigit⟩ := toDigits_head m
    have hgap : isGap (some c) = false := by
      simp [isGap, isDigit_ne hdigit]
    rw [htext]
    rw [hcs, List.map_cons, List.cons_append] at hnumber ⊢
    rw [readValue, skipGaps_cons hgap]
    dsimp only
    -- a digit opens none of the other values
    rw [if_neg (isDigit_ne hdigit rfl), if_neg (isDigit_ne hdigit rfl),
      if_neg (isDigit_ne hdigit rfl), if_neg (isDigit_ne hdigit rfl), Text.digit?_of_isDigit hdigit]
    exact hnumber

/-- **A text is read back** from between its quotes. -/
theorem readQuoted_quote (s : String) {fuel : Nat} (h : (quote s).length ≤ fuel)
    (rest : List Letter) :
    ∃ ls, (quote s).map some ++ rest = some '"' :: ls ∧
      readQuoted fuel ⟨[], false, false⟩ ls = ⟨.string s, some rest⟩ := by
  have hlong := length_le_flatMap_escape s.toList
  unfold quote at h ⊢
  rw [List.length_append, List.length_cons, List.length_singleton] at h
  have hfuel : s.toList.length < fuel := by omega
  have hread := readQuoted_flatMap_escape hfuel [] rest
  rw [List.reverse_nil, List.nil_append, String.ofList_toList] at hread
  refine ⟨(s.toList.flatMap escape).map some ++ some '"' :: rest, ?_, hread⟩
  rw [List.map_append, List.append_assoc]
  rfl

theorem readValue_quote (s : String) {fuel : Nat} (h : (quote s).length ≤ fuel) (rest : List Letter) :
    readValue fuel ((quote s).map some ++ rest) = ⟨.string s, some rest⟩ := by
  obtain ⟨ls, hls, hread⟩ := readQuoted_quote s h rest
  cases fuel with
  | zero => cases h
  | succ fuel =>
    rw [hls, readValue]
    exact hread

section Values

variable (L : Layout)

/-- What a value begins with is no gap and closes nothing. -/
theorem text_head (level : Nat) : ∀ {j : Json}, j.isPlain →
    ∃ c cs, L.text level j = c :: cs ∧ isGap (some c) = false ∧ c ≠ ']'
  | .null, _ => ⟨_, _, rfl, rfl, by decide⟩
  | .bool true, _ => ⟨_, _, rfl, rfl, by decide⟩
  | .bool false, _ => ⟨_, _, rfl, rfl, by decide⟩
  | .int n, _ => by
    change ∃ c cs, intText n = c :: cs ∧ _
    unfold intText
    split
    · exact ⟨_, _, rfl, rfl, by decide⟩
    · obtain ⟨c, cs, hcs, hdigit⟩ := toDigits_head n.natAbs
      exact ⟨c, cs, hcs, by simp [isGap, isDigit_ne hdigit], isDigit_ne hdigit rfl⟩
  | .string s, _ => ⟨_, _, rfl, rfl, by decide⟩
  | .array [], _ => ⟨_, _, rfl, rfl, by decide⟩
  | .array (_ :: _), _ => ⟨_, _, rfl, rfl, by decide⟩
  | .object [], _ => ⟨_, _, rfl, rfl, by decide⟩
  | .object (_ :: _), _ => ⟨_, _, rfl, rfl, by decide⟩

theorem length_text_pos (level : Nat) {j : Json} (h : j.isPlain) : 0 < (L.text level j).length := by
  obtain ⟨c, cs, hcs, -, -⟩ := text_head L level h
  rw [hcs]
  exact Nat.succ_pos _

/-- What the items of an array begin with is no gap, and does not close the array. -/
theorem itemsText_head (level : Nat) {j : Json} (h : j.isPlain) (js : List Json) :
    ∃ c cs, L.itemsText level (j :: js) = c :: cs ∧ isGap (some c) = false ∧ c ≠ ']' := by
  obtain ⟨c, cs, hcs, hhead⟩ := text_head L (level + 1) h
  cases js with
  | nil =>
    refine ⟨c, cs ++ (L.line level ++ [']']), ?_, hhead⟩
    rw [Layout.itemsText, hcs, List.cons_append]
  | cons j' js =>
    refine ⟨c, cs ++ ',' :: (L.line (level + 1) ++ L.itemsText level (j' :: js)), ?_, hhead⟩
    rw [Layout.itemsText, hcs, List.cons_append]
    exact List.cons_ne_nil _ _

/-- The fields of an object begin with the quote of a key. -/
theorem fieldsText_head (level : Nat) (k : String) (j : Json) (fs : List (String × Json)) :
    ∃ cs, L.fieldsText level ((k, j) :: fs) = '"' :: cs := by
  cases fs with
  | nil => exact ⟨_, rfl⟩
  | cons f fs => exact ⟨_, rfl⟩

/-- A field is read as its key and its value; then comes another, or the end. -/
theorem readFields_field (k : String) {cs : List Char} {d : Draft} {fuel : Nat} {rest : List Letter}
    (hfuel : (quote k).length ≤ fuel + 1)
    (hread : readValue fuel (cs.map some ++ rest) = ⟨d, some rest⟩) :
    readFields (fuel + 1) ((quote k ++ ':' :: (L.colon ++ cs)).map some ++ rest) =
      match skipGaps rest with
      | [] => ([(some k, d)], some .early, none)
      | some ',' :: ls =>
        let (fs, stop, rest) := readFields fuel (skipGaps ls)
        ((some k, d) :: fs, stop, rest)
      | some '\x7d' :: rest => ([(some k, d)], none, some rest)
      | _ => ([(some k, d)], some .malformed, none) := by
  obtain ⟨ls, hls, hkey⟩ :=
    readQuoted_quote k hfuel (some ':' :: (L.colon.map some ++ (cs.map some ++ rest)))
  rw [List.map_append, List.append_assoc, List.map_cons, List.cons_append, List.map_append,
    List.append_assoc, hls, readFields]
  dsimp only
  rw [hkey]
  dsimp only
  rw [skipGaps_cons rfl]
  simp only [readValue_gaps L.isGap_colon, hread]
  rfl

mutual

/-- **A plain value is read back** from what is written of it, in any layout. -/
theorem readValue_text : ∀ (fuel level : Nat) {j : Json} {rest : List Letter}, j.isPlain →
    (L.text level j).length ≤ fuel + 1 → EndsNumber rest →
    readValue (fuel + 1) ((L.text level j).map some ++ rest) = ⟨Draft.ofJson j, some rest⟩
  | fuel, _, .null, rest, _, _, _ => by
    rw [readValue]
    rfl
  | fuel, _, .bool b, rest, _, _, _ => by
    rw [readValue]
    cases b <;> rfl
  | fuel, _, .int n, rest, h, _, hrest => readValue_intText (of_decide_eq_true h) fuel hrest
  | fuel, _, .string s, rest, _, hfuel, _ => readValue_quote s hfuel rest
  | fuel, _, .array [], rest, _, _, _ => by
    rw [readValue]
    rfl
  | fuel, level, .array (j :: js), rest, h, hfuel, _ => by
    have htext : L.text level (.array (j :: js)) =
      '[' :: (L.line (level + 1) ++ L.itemsText level (j :: js)) := rfl
    rw [htext, List.length_cons, List.length_append] at hfuel
    have hitems := readItems_itemsText fuel level rest (List.cons_ne_nil j js) h (by omega)
    obtain ⟨c, cs, hcs, hgap, hopen⟩ := itemsText_head L level (Bool.and_eq_true_iff.mp h).1 js
    rw [hcs, List.map_cons, List.cons_append] at hitems
    rw [htext, hcs, List.map_cons, List.map_append, List.cons_append, List.append_assoc, readValue]
    change (match skipGaps ((L.line (level + 1)).map some ++ some c :: (cs.map some ++ rest)) with
      | [] => (⟨.array [] (some .early), none⟩ : Progress)
      | some ']' :: rest => ⟨.array [] none, some rest⟩
      | ls => let (items, stop, rest) := readItems fuel ls; ⟨.array items stop, rest⟩) = _
    rw [skipGaps_gaps (L.isGap_line _), skipGaps_cons hgap]
    -- the first item neither ends the text nor closes the array
    split
    · next heq => cases heq
    · next heq =>
      cases heq
      exact absurd rfl hopen
    · rw [hitems]
      rfl
  | fuel, _, .object [], rest, _, _, _ => by
    rw [readValue]
    rfl
  | fuel, level, .object ((k, j) :: fs), rest, h, hfuel, _ => by
    have htext : L.text level (.object ((k, j) :: fs)) =
      '\x7b' :: (L.line (level + 1) ++ L.fieldsText level ((k, j) :: fs)) := rfl
    rw [htext, List.length_cons, List.length_append] at hfuel
    have hfields := readFields_fieldsText fuel level rest (List.cons_ne_nil (k, j) fs) h (by omega)
    obtain ⟨cs, hcs⟩ := fieldsText_head L level k j fs
    rw [hcs, List.map_cons, List.cons_append] at hfields
    rw [htext, hcs, List.map_cons, List.map_append, List.cons_append, List.append_assoc, readValue]
    change (match skipGaps ((L.line (level + 1)).map some ++ some '"' :: (cs.map some ++ rest)) with
      | [] => (⟨.object [] (some .early), none⟩ : Progress)
      | some '\x7d' :: rest => ⟨.object [] none, some rest⟩
      | ls => let (fields, stop, rest) := readFields fuel ls; ⟨.object fields stop, rest⟩) = _
    -- a key begins with a quote, which is no gap either
    rw [skipGaps_gaps (L.isGap_line _), skipGaps_cons rfl]
    change (let (fields, stop, rest) := readFields fuel (some '"' :: (cs.map some ++ rest));
      (⟨.object fields stop, rest⟩ : Progress)) = _
    rw [hfields]
    rfl

/-- The items of an array are read back up to its closing bracket. -/
theorem readItems_itemsText : ∀ (fuel level : Nat) (rest : List Letter) {js : List Json}, js ≠ [] →
    plainItems js → (L.itemsText level js).length ≤ fuel →
    readItems fuel ((L.itemsText level js).map some ++ rest) = (Draft.ofItems js, none, some rest)
  | fuel, level, rest, [j], _, h, hfuel => by
    have hj : j.isPlain := (Bool.and_eq_true_iff.mp h).1
    have hpos := length_text_pos L (level + 1) hj
    -- the item has a character at least, and the bracket is another
    rw [Layout.itemsText, List.length_append, List.length_append, List.length_singleton] at hfuel
    obtain ⟨fuel, rfl⟩ : ∃ n, fuel = n + 2 := ⟨fuel - 2, by omega⟩
    have hread := readValue_text fuel (level + 1) hj (by omega)
      (endsNumber_gaps (L.isGap_line level) (endsNumber_cons (.inr (.inl rfl)) rest))
    rw [Layout.itemsText, List.map_append, List.map_append, List.append_assoc, List.append_assoc,
      readItems]
    change (match readValue (fuel + 1) ((L.text (level + 1) j).map some ++
        ((L.line level).map some ++ some ']' :: rest)) with
      | ⟨d, none⟩ => _
      | ⟨d, some ls⟩ => _) = _
    rw [hread]
    dsimp only
    rw [skipGaps_gaps (L.isGap_line level), skipGaps_cons rfl]
    rfl
  | fuel, level, rest, j :: j' :: js, _, h, hfuel => by
    obtain ⟨hj, hjs⟩ := Bool.and_eq_true_iff.mp h
    have hpos := length_text_pos L (level + 1) hj
    have htext : L.itemsText level (j :: j' :: js) = L.text (level + 1) j ++
      ',' :: (L.line (level + 1) ++ L.itemsText level (j' :: js)) := rfl
    rw [htext, List.length_append, List.length_cons, List.length_append] at hfuel
    obtain ⟨fuel, rfl⟩ : ∃ n, fuel = n + 2 := ⟨fuel - 2, by omega⟩
    have hitems := readItems_itemsText (fuel + 1) level rest (List.cons_ne_nil j' js) hjs (by omega)
    obtain ⟨c, cs, hcs, hgap, hopen⟩ := itemsText_head L level (Bool.and_eq_true_iff.mp hjs).1 js
    rw [hcs, List.map_cons, List.cons_append] at hitems
    have hread := readValue_text fuel (level + 1) hj (by omega)
      (endsNumber_cons (.inl rfl) ((L.line (level + 1)).map some ++ some c :: (cs.map some ++ rest)))
    rw [htext, hcs, List.map_append, List.map_cons, List.map_append, List.append_assoc,
      List.cons_append, List.append_assoc, readItems]
    change (match readValue (fuel + 1) ((L.text (level + 1) j).map some ++ some ',' ::
        ((L.line (level + 1)).map some ++ some c :: (cs.map some ++ rest))) with
      | ⟨d, none⟩ => ([d], none, none)
      | ⟨d, some ls⟩ => _) = _
    rw [hread]
    change (match skipGaps ((L.line (level + 1)).map some ++ some c :: (cs.map some ++ rest)) with
      | [] => _
      | some ']' :: _ => _
      | ls => let (ds, stop, rest) := readItems (fuel + 1) ls
        (Draft.ofJson j :: ds, stop, rest)) = _
    rw [skipGaps_gaps (L.isGap_line _), skipGaps_cons hgap]
    -- as with the first item, the next one neither ends the text nor closes the array
    split
    · next heq => cases heq
    · next heq =>
      cases heq
      exact absurd rfl hopen
    · rw [hitems]
      rfl

/-- The fields of an object are read back up to its closing brace. -/
theorem readFields_fieldsText : ∀ (fuel level : Nat) (rest : List Letter)
    {fs : List (String × Json)}, fs ≠ [] → plainFields fs → (L.fieldsText level fs).length ≤ fuel →
    readFields fuel ((L.fieldsText level fs).map some ++ rest) = (Draft.ofFields fs, none, some rest)
  | fuel, level, rest, [(k, j)], _, h, hfuel => by
    have hj : j.isPlain := (Bool.and_eq_true_iff.mp h).1
    have hpos := length_text_pos L (level + 1) hj
    have htext : L.fieldsText level [(k, j)] =
      (quote k ++ ':' :: (L.colon ++ L.text (level + 1) j)) ++ (L.line level ++ ['\x7d']) := rfl
    rw [htext, List.length_append, List.length_append, List.length_cons, List.length_append,
      List.length_append, List.length_singleton] at hfuel
    obtain ⟨fuel, rfl⟩ : ∃ n, fuel = n + 2 := ⟨fuel - 2, by omega⟩
    have hread := readValue_text fuel (level + 1) hj (by omega)
      (endsNumber_gaps (L.isGap_line level) (endsNumber_cons (.inr (.inr rfl)) rest))
    -- the letters of the field are told apart from those behind it
    have hsplit : ∀ field gap : List Char, (field ++ (gap ++ ['\x7d'])).map some ++ rest =
        field.map some ++ (gap.map some ++ some '\x7d' :: rest) := by
      intro field gap
      rw [List.map_append, List.append_assoc, List.map_append, List.append_assoc]
      rfl
    rw [htext, hsplit]
    refine (readFields_field L k (by omega) hread).trans ?_
    rw [skipGaps_gaps (L.isGap_line level), skipGaps_cons rfl]
    rfl
  | fuel, level, rest, (k, j) :: (k', j') :: fs, _, h, hfuel => by
    obtain ⟨hj, hfs⟩ := Bool.and_eq_true_iff.mp h
    have hpos := length_text_pos L (level + 1) hj
    have htext : L.fieldsText level ((k, j) :: (k', j') :: fs) =
      (quote k ++ ':' :: (L.colon ++ L.text (level + 1) j)) ++
        ',' :: (L.line (level + 1) ++ L.fieldsText level ((k', j') :: fs)) := rfl
    rw [htext, List.length_append, List.length_append, List.length_cons, List.length_append,
      List.length_cons, List.length_append] at hfuel
    obtain ⟨fuel, rfl⟩ : ∃ n, fuel = n + 2 := ⟨fuel - 2, by omega⟩
    have hfields := readFields_fieldsText (fuel + 1) level rest
      (List.cons_ne_nil (k', j') fs) hfs (by omega)
    obtain ⟨cs, hcs⟩ := fieldsText_head L level k' j' fs
    rw [hcs, List.map_cons, List.cons_append] at hfields
    have hread := readValue_text fuel (level + 1) hj (by omega) (endsNumber_cons (.inl rfl)
      ((L.line (level + 1)).map some ++ some '"' :: (cs.map some ++ rest)))
    have hsplit : ∀ field gap : List Char, (field ++ ',' :: (gap ++ '"' :: cs)).map some ++ rest =
        field.map some ++ some ',' :: (gap.map some ++ some '"' :: (cs.map some ++ rest)) := by
      intro field gap
      rw [List.map_append, List.append_assoc, List.map_cons, List.map_append, List.cons_append,
        List.append_assoc]
      rfl
    rw [htext, hcs, hsplit]
    refine (readFields_field L k (by omega) hread).trans ?_
    change (let (fs, stop, rest) := readFields (fuel + 1) (skipGaps (_ ++ some '"' :: _));
      ((some k, Draft.ofJson j) :: fs, stop, rest)) = _
    -- the quote of the next key is no gap
    rw [skipGaps_gaps (L.isGap_line _), skipGaps_cons rfl, hfields]
    rfl

end

/-- **A plain document is read back** in any layout, and nothing follows it. -/
theorem Document.ofLetters_text {j : Json} (h : j.isPlain) :
    Document.ofLetters ((L.text 0 j).map some) = ⟨Draft.ofJson j, false⟩ := by
  have hread := readValue_text L (2 * ((L.text 0 j).map some).length + 1) 0 h
    (by rw [List.length_map]; omega) endsNumber_nil
  rw [List.append_nil] at hread
  unfold Document.ofLetters
  rw [hread]
  rfl

end Values

/-- **A compact text is read back.** -/
theorem Document.ofLetters_write {j : Json} (h : j.isPlain) :
    Document.ofLetters (j.write.map some) = ⟨Draft.ofJson j, false⟩ := by
  have hread := Document.ofLetters_text Layout.tight h
  rwa [text_tight] at hread

/-- **A pretty text is read back.** -/
theorem Document.ofText_pretty {j : Json} (h : j.isPlain) :
    Document.ofText j.pretty = ⟨Draft.ofJson j, false⟩ := by
  have hread := Document.ofLetters_text Layout.lines h
  rw [text_lines] at hread
  unfold Document.ofText Text.letters pretty
  rw [String.toList_ofList, hread]

end BytecodeDebugger.Json
