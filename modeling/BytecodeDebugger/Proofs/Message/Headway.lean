import BytecodeDebugger.Proofs.Message.Framing

/-!
# The reader gets on

Whatever a stream holds, a call of the reader takes something off its front unless it finds the end: a
line that says nothing readable is gone when it is refused, and a body is only asked for behind the lines
in front of it. What a call leaves is the stream behind what it took, so that no byte is read twice. A
reader that goes on after every fault therefore comes to the end of the stream, and its calls before
that are at most as many as the bytes.

There is one way in which it does not come there. Room for a body is made before the body is read, so that
a length beyond `Text.maxLength` ends the reader in the middle of a call, however few bytes follow.

Main statements:

* `Message.readFrom_cases` — the ways in which a call goes;
* `Message.calls_end` — every call that comes back takes something or finds the end, and only a line that
  gives such a length keeps the reader from the end.
-/

namespace BytecodeDebugger

/-- A line has at least one byte. -/
theorem Text.takeLine_ne_nil (b : UInt8) (bs : List UInt8) : (takeLine (b :: bs)).1 ≠ [] := by
  intro hnil
  have happend := takeLine_append (b :: bs)
  have hshorter := takeLine_length_lt b bs
  rw [hnil, List.nil_append] at happend
  rw [happend] at hshorter
  exact Nat.lt_irrefl _ hshorter

/-- What a call gives to the one who asked for it, if it comes back. -/
def Reading.result? : Reading → Option (Except FrameFault (Option Message))
  | .ended => some (.ok none)
  | .message m _ => some (.ok (some m))
  | .fault f _ => some (.error f)
  | .overflow => none

namespace Message

/-- **A header line among these bytes** gives a length for which there is no room. -/
def Oversized (bytes : List UInt8) : Prop :=
  ∃ line n, line <:+: bytes ∧ Header.ofBytes line = .ok (.length n) ∧ Text.maxLength < n

theorem Oversized.of_infix {bytes whole : List UInt8} (h : Oversized bytes) (hin : bytes <:+: whole) :
    Oversized whole := by
  obtain ⟨line, n, hline, hlength, hlarge⟩ := h
  exact ⟨line, n, hline.trans hin, hlength, hlarge⟩

/-! ### One call -/

/-- **How a call goes**: it finds the end, or it stops behind a line that it refuses, or it comes to a
body, whose length was known or is given by a line on the way. In front of the body, and behind the line,
at least one byte is gone. -/
theorem readFrom_cases (length? : Option Nat) (bytes : List UInt8) :
    readFrom length? bytes = .ended ∨ ∃ taken rest, taken ≠ [] ∧ taken ++ rest = bytes ∧
      ((∃ fault, readFrom length? bytes = .fault fault rest) ∨
        ∃ n, readFrom length? bytes = readBody n rest ∧
          (length? = some n ∨ ∃ line, line <:+: taken ∧ Header.ofBytes line = .ok (.length n))) := by
  -- what is known of the rest of the header, with the line in front of it put back
  have hstep : ∀ (b : UInt8) (bs : List UInt8) {length? later : Option Nat},
      (∀ n, later = some n → length? = some n ∨
        Header.ofBytes (Text.takeLine (b :: bs)).1 = .ok (.length n)) →
      (readFrom later (Text.takeLine (b :: bs)).2 = .ended ∨ ∃ taken rest, taken ≠ [] ∧
        taken ++ rest = (Text.takeLine (b :: bs)).2 ∧
        ((∃ fault, readFrom later (Text.takeLine (b :: bs)).2 = .fault fault rest) ∨
          ∃ n, readFrom later (Text.takeLine (b :: bs)).2 = readBody n rest ∧
            (later = some n ∨
              ∃ line, line <:+: taken ∧ Header.ofBytes line = .ok (.length n)))) →
      readFrom later (Text.takeLine (b :: bs)).2 = .ended ∨ ∃ taken rest, taken ≠ [] ∧
        taken ++ rest = b :: bs ∧
        ((∃ fault, readFrom later (Text.takeLine (b :: bs)).2 = .fault fault rest) ∨
          ∃ n, readFrom later (Text.takeLine (b :: bs)).2 = readBody n rest ∧
            (length? = some n ∨
              ∃ line, line <:+: taken ∧ Header.ofBytes line = .ok (.length n))) := by
    intro b bs length? later hlater hrest
    refine hrest.imp_right ?_
    rintro ⟨taken, rest, -, htaken, hgoes⟩
    refine ⟨(Text.takeLine (b :: bs)).1 ++ taken, rest, ?_, ?_, ?_⟩
    · exact List.append_ne_nil_of_left_ne_nil (Text.takeLine_ne_nil b bs) taken
    · rw [List.append_assoc, htaken]
      exact Text.takeLine_append _
    · refine hgoes.imp_right ?_
      rintro ⟨n, hbody, hknown | ⟨line, hline, hlength⟩⟩
      · refine ⟨n, hbody, (hlater n hknown).imp_right fun hlength => ?_⟩
        exact ⟨_, (List.prefix_append _ _).isInfix, hlength⟩
      · exact ⟨n, hbody, .inr ⟨line, hline.trans (List.suffix_append _ _).isInfix, hlength⟩⟩
  fun_induction readFrom length? bytes with
  | case1 => exact .inl rfl
  | case2 _ b bs _ fault =>
    exact .inr ⟨_, _, Text.takeLine_ne_nil b bs, Text.takeLine_append _, .inl ⟨fault, rfl⟩⟩
  | case4 b bs _ _ n =>
    exact .inr ⟨_, _, Text.takeLine_ne_nil b bs, Text.takeLine_append _, .inr ⟨n, rfl, .inl rfl⟩⟩
  -- behind any other line the call goes on
  | case3 b bs _ _ ih => exact hstep b bs (fun n hn => by cases hn) ih
  | case5 _ b bs _ n hline ih =>
    refine hstep b bs (fun n' hn' => ?_) ih
    cases hn'
    exact .inr hline
  | case6 _ b bs _ _ ih => exact hstep b bs (fun n hn => .inl hn) ih

/-- A body is taken off the front, or all that is left when it is cut off, if there is room for it. -/
theorem readBody_takes {n : Nat} (hroom : n ≤ Text.maxLength) (bytes : List UInt8) :
    ∃ taken rest, taken ++ rest = bytes ∧ (readBody n bytes).rest? = some rest := by
  unfold readBody
  rw [if_neg (Nat.not_lt.mpr hroom)]
  split
  · refine ⟨bytes.take n, bytes.drop n, List.take_append_drop n bytes, ?_⟩
    split <;> rfl
  · exact ⟨bytes, [], List.append_nil bytes, rfl⟩

/-- **Every call that comes back takes something**, unless it finds the end. -/
theorem read_takes (bytes : List UInt8) :
    read bytes = .ended ∨
      (∃ taken rest, taken ≠ [] ∧ taken ++ rest = bytes ∧ (read bytes).rest? = some rest) ∨
      read bytes = .overflow ∧ Oversized bytes := by
  refine (readFrom_cases none bytes).imp_right ?_
  rintro ⟨taken, rest, hne, rfl, ⟨fault, hfault⟩ | ⟨n, hbody, hknown | ⟨line, hline, hlength⟩⟩⟩
  · exact .inl ⟨taken, rest, hne, rfl, congrArg Reading.rest? hfault⟩
  · cases hknown
  · -- behind the header stands the body, if there is room for one of its length
    rcases Nat.lt_or_ge Text.maxLength n with hlarge | hroom
    · refine .inr ⟨hbody.trans (readBody_overflow hlarge rest), line, n, ?_, hlength, hlarge⟩
      exact hline.trans (List.prefix_append taken rest).isInfix
    · obtain ⟨body, rest', rfl, hrest⟩ := readBody_takes hroom rest
      refine .inl ⟨taken ++ body, rest', List.append_ne_nil_of_left_ne_nil hne body, ?_, ?_⟩
      · exact List.append_assoc _ _ _
      · exact (congrArg Reading.rest? hbody).trans hrest

/-- **A length beyond memory ends the reader**, whatever follows its header. -/
theorem read_overflow {n : Nat} (hlarge : Text.maxLength < n) (hword : n ≤ Text.maxWord)
    (rest : List UInt8) :
    read (Text.bytes ("Content-Length: " ++ toString n ++ "\r\n\r\n") ++ rest) = .overflow := by
  unfold read
  rw [bytes_header, List.append_assoc]
  change readFrom none (_ ++ 10 :: 13 :: 10 :: rest) = _
  rw [readFrom_lengthLine hword, readFrom_blank]
  exact readBody_overflow hlarge rest

/-! ### Calls in a row -/

/-- **The call behind `n` others**, when the reader goes on after everything that it is given. The call that
finds the end leaves nothing, and there is none behind one that does not come back. -/
def readAfter : Nat → List UInt8 → Reading
  | 0, bytes => read bytes
  | n + 1, bytes =>
    match read bytes with
    | .ended => readAfter n []
    | .message _ rest => readAfter n rest
    | .fault _ rest => readAfter n rest
    | .overflow => .overflow

theorem readAfter_succ {bytes rest : List UInt8} (h : (read bytes).rest? = some rest) (n : Nat) :
    readAfter (n + 1) bytes = readAfter n rest := by
  rw [readAfter]
  cases hread : read bytes with
  | ended | overflow =>
    rw [hread] at h
    cases h
  | message _ rest' | fault _ rest' =>
    rw [hread] at h
    cases h
    rfl

/-- Behind the end every call finds it again. -/
theorem readAfter_of_ended {bytes : List UInt8} (h : read bytes = .ended) (n : Nat) :
    readAfter n bytes = .ended := by
  induction n generalizing bytes with
  | zero => exact h
  | succ n ih =>
    rw [readAfter, h]
    exact ih (readFrom_nil none)

/-- A reader that came to its own end does not come to that of the stream. -/
theorem readAfter_of_overflow {bytes : List UInt8} (h : read bytes = .overflow) (n : Nat) :
    readAfter n bytes = .overflow := by
  cases n with
  | zero => exact h
  | succ n => rw [readAfter, h]

/-- **The calls come to an end**, that of the stream or that of the reader, and the calls in front of it
are at most as many as the bytes. -/
theorem readAfter_ends (bytes : List UInt8) :
    ∃ n ≤ bytes.length, (∀ k < n, ∃ rest, (readAfter k bytes).rest? = some rest) ∧
      ((∀ k, n ≤ k → readAfter k bytes = .ended) ∨
        (∀ k, n ≤ k → readAfter k bytes = .overflow) ∧ Oversized bytes) := by
  -- by the length of the stream, since every call that comes back leaves a shorter one
  induction hlength : bytes.length using Nat.strongRecOn generalizing bytes with
  | ind length ih =>
    subst hlength
    rcases read_takes bytes with hended | ⟨taken, rest, -, htaken, hrest⟩ | ⟨hover, hlarge⟩
    · refine ⟨0, Nat.zero_le _, fun k hk => absurd hk (Nat.not_lt_zero k), .inl ?_⟩
      exact fun k _ => readAfter_of_ended hended k
    · have hshorter : rest.length < bytes.length := rest_length_lt hrest
      obtain ⟨n, hn, hbefore, hbehind⟩ := ih rest.length hshorter rest rfl
      refine ⟨n + 1, Nat.lt_of_le_of_lt hn hshorter, ?_, ?_⟩
      · intro k hk
        cases k with
        | zero => exact ⟨rest, hrest⟩
        | succ k =>
          rw [readAfter_succ hrest]
          exact hbefore k (Nat.lt_of_succ_lt_succ hk)
      · -- the calls behind the first one are those on what it left
        have hsame : ∀ {last : Reading}, (∀ k, n ≤ k → readAfter k rest = last) →
            ∀ k, n + 1 ≤ k → readAfter k bytes = last := by
          intro last hlast k hk
          cases k with
          | zero => cases hk
          | succ k =>
            rw [readAfter_succ hrest]
            exact hlast k (Nat.le_of_succ_le_succ hk)
        refine hbehind.imp hsame fun ⟨hover, hlarge⟩ => ⟨hsame hover, hlarge.of_infix ?_⟩
        exact htaken ▸ (List.suffix_append taken rest).isInfix
    · refine ⟨0, Nat.zero_le _, fun k hk => absurd hk (Nat.not_lt_zero k), .inr ⟨?_, hlarge⟩⟩
      exact fun k _ => readAfter_of_overflow hover k

/-- The results of a reader that takes some faults for the end are those of its calls, as far as it
goes. -/
theorem results_eq_result {bytes : List UInt8} {k : Nat} {result : Except FrameFault (Option Message)}
    (h : (results bytes)[k]? = some result) : (readAfter k bytes).result? = some result := by
  -- along the results; each but the last leaves the stream on which the next call is made
  fun_induction results bytes generalizing k with
  | case1 bytes hended =>
    cases k with
    | zero => rw [readAfter, hended]; exact h
    | succ k => cases h
  | case2 bytes m rest hread ih =>
    cases k with
    | zero => rw [readAfter, hread]; exact h
    | succ k =>
      rw [readAfter_succ (congrArg Reading.rest? hread)]
      exact ih h
  | case3 bytes fault rest hread ih =>
    cases k with
    | zero => rw [readAfter, hread]; exact h
    | succ k =>
      rw [List.getElem?_cons_succ] at h
      split at h
      · cases h
      · rw [readAfter_succ (congrArg Reading.rest? hread)]
        exact ih h
  | case4 => cases h

/-- Such a reader makes one call more at most than the stream has bytes. -/
theorem length_results_le (bytes : List UInt8) : (results bytes).length ≤ bytes.length + 1 := by
  -- every result but the one at the end uses up a byte of the stream
  fun_induction results bytes with
  | case1 bytes hended => exact Nat.le_add_left 1 bytes.length
  | case2 bytes m rest hread ih =>
    have hshorter : rest.length < bytes.length := rest_length_lt (congrArg Reading.rest? hread)
    rw [List.length_cons]
    omega
  | case3 bytes fault rest hread ih =>
    have hshorter : rest.length < bytes.length := rest_length_lt (congrArg Reading.rest? hread)
    rw [List.length_cons]
    split
    · exact Nat.le_add_left _ _
    · omega
  | case4 => exact Nat.zero_le _

/-- **The reader gets on as long as it lives.** On every stream a call finds the end, or takes at
least one byte off the front and leaves what is behind, or does not come back because a header line
gives a length for which there is no room; and such a header has this effect in front of every stream.
A reader that goes on after every fault therefore comes to the end of every stream without such a
line: there is a call that finds it, with at most as many calls in front as the stream has bytes, and
from then on every call finds it. With such a line it may come to its own end instead, again behind at
most as many calls. The reader that takes some faults for the end is given the same, call by call, up
to where it stops, and it does not make more calls either. -/
theorem calls_end (bytes : List UInt8) :
    (read bytes = .ended ∨
      (∃ taken rest, taken ≠ [] ∧ taken ++ rest = bytes ∧ (read bytes).rest? = some rest) ∨
      read bytes = .overflow ∧ Oversized bytes) ∧
    (∀ n, Text.maxLength < n → n ≤ Text.maxWord →
      read (Text.bytes ("Content-Length: " ++ toString n ++ "\r\n\r\n") ++ bytes) = .overflow) ∧
    (∃ n ≤ bytes.length, (∀ k < n, ∃ rest, (readAfter k bytes).rest? = some rest) ∧
      ((∀ k, n ≤ k → readAfter k bytes = .ended) ∨
        (∀ k, n ≤ k → readAfter k bytes = .overflow) ∧ Oversized bytes)) ∧
    (results bytes).length ≤ bytes.length + 1 ∧
    ∀ k result, (results bytes)[k]? = some result → (readAfter k bytes).result? = some result := by
  refine ⟨read_takes bytes, fun n hlarge hword => read_overflow hlarge hword bytes,
    readAfter_ends bytes, length_results_le bytes, fun k result hresult => ?_⟩
  exact results_eq_result hresult

/-- Two calls on a byte that is no text: it is refused, and then the stream is over. -/
theorem calls_on_a_garbled_byte :
    (results [0xff])[0]? = some (.error .header) ∧ (readAfter 0 [0xff]).result? = some (.error .header) ∧
      Text.maxLength < Text.maxWord ∧
      read (Text.bytes ("Content-Length: " ++ toString Text.maxWord ++ "\r\n\r\n") ++ [0xff]) =
        .overflow := by
  obtain ⟨-, hlarge, -, -, hsame⟩ := calls_end [0xff]
  have hread : read [0xff] = .fault .header [] := by
    have hgarbled : Header.ofBytes [0xff] = .error .header := by rfl
    unfold read
    rw [readFrom_eq (List.cons_ne_nil _ _), Text.takeLine_of_not_mem (by decide), hgarbled]
  have hfirst : (results [0xff])[0]? = some (.error .header) := by
    rw [results_of_fault hread]
    rfl
  have hroom : Text.maxLength < Text.maxWord := by decide
  exact ⟨hfirst, hsame 0 _ hfirst, hroom, hlarge _ hroom (Nat.le_refl _)⟩

/-- The header of a body that no memory has room for. -/
def roomless : List UInt8 := Text.bytes "Content-Length: 18446744073709551615\r\n\r\n"

/-- Behind it the end of the stream is never found, and the call takes nothing that another could go on
behind. -/
theorem roomless_never_ends :
    ¬ ∀ bytes, (read bytes = .ended ∨ ∃ taken rest, taken ≠ [] ∧ taken ++ rest = bytes ∧
        (read bytes).rest? = some rest) ∧
      ∃ n ≤ bytes.length, readAfter n bytes = .ended := by
  intro hall
  -- the stream announces the largest number of bytes that can be written
  have hroomless : roomless =
      Text.bytes ("Content-Length: " ++ toString Text.maxWord ++ "\r\n\r\n") ++ [] := by
    decide +kernel
  have hread : read roomless = .overflow := by
    rw [hroomless]
    exact read_overflow (by decide) (Nat.le_refl _) []
  obtain ⟨-, n, -, hended⟩ := hall roomless
  rw [readAfter_of_overflow hread] at hended
  cases hended

end Message

end BytecodeDebugger
