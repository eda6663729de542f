import BytecodeDebugger.Proofs.Message.Reading

/-!
# Framing

A stream of frames is read as the messages that were framed, in their order and each once, and then
it ends. A stream that is cut off is read as far as its frames are whole: the cut may fall into the
name of the header, into the number, into the blank line or into the body, and what is left of a
frame is never taken for a message.

Main statement: `Message.results_stream`, for any messages that can be sent and every prefix of their
frames.
-/

namespace BytecodeDebugger

namespace Text

/-! ### Bytes of plain characters -/

theorem bytes_append (s t : String) : bytes (s ++ t) = bytes s ++ bytes t := by
  simp [bytes]

theorem length_bytes (s : String) : (bytes s).length = s.utf8ByteSize := by
  simp [bytes]

/-- A character of seven bits is one byte. -/
theorem bytes_of_lt {cs : List Char} (h : ∀ c ∈ cs, c.toNat < 128) :
    bytes (String.ofList cs) = cs.map fun c => UInt8.ofNat c.toNat := by
  have hencode : cs.flatMap String.utf8EncodeChar = cs.map fun c => UInt8.ofNat c.toNat := by
    induction cs with
    | nil => rfl
    | cons c cs ih =>
      have hone : String.utf8EncodeChar c = [UInt8.ofNat c.toNat] :=
        if_pos (Nat.le_of_lt_succ (h c List.mem_cons_self))
      rw [List.flatMap_cons, hone, ih fun d hd => h d (List.mem_cons_of_mem _ hd)]
      rfl
  rw [← hencode]
  simp [bytes, List.utf8Encode]

/-- No other character of seven bits is a line feed. -/
theorem not_mem_bytes_of_lt {cs : List Char} (h : ∀ c ∈ cs, c.toNat < 128 ∧ c ≠ '\n') :
    10 ∉ bytes (String.ofList cs) := by
  rw [bytes_of_lt fun c hc => (h c hc).1]
  intro hmem
  obtain ⟨c, hc, hbyte⟩ := List.mem_map.mp hmem
  obtain ⟨hlt, hne⟩ := h c hc
  have hvalue : c.toNat % 256 = 10 := congrArg UInt8.toNat hbyte
  rw [Nat.mod_eq_of_lt (by omega)] at hvalue
  exact hne (Char.toNat_inj.mp hvalue)

/-! ### Lines -/

/-- A line ends with its first line feed. -/
theorem takeLine_append_cons {line : List UInt8} (h : 10 ∉ line) (rest : List UInt8) :
    takeLine (line ++ 10 :: rest) = (line ++ [10], rest) := by
  induction line with
  | nil => rfl
  | cons b line ih =>
    rw [List.mem_cons, not_or] at h
    rw [List.cons_append, takeLine, if_neg (Ne.symm h.1), ih h.2]
    rfl

/-- Without a line feed everything is one line. -/
theorem takeLine_of_not_mem {line : List UInt8} (h : 10 ∉ line) : takeLine line = (line, []) := by
  induction line with
  | nil => rfl
  | cons b line ih =>
    rw [List.mem_cons, not_or] at h
    rw [takeLine, if_neg (Ne.symm h.1), ih h.2]

end Text

/-! ### Headers -/

namespace Header

/-- What is written in front of a body of `n` bytes, up to the end of the line. -/
def lengthLine (n : Nat) : List Char := lengthMark ++ ' ' :: Nat.toDigits 10 n ++ ['\r']

theorem toNat_of_isDigit {c : Char} (h : c.isDigit = true) : 48 ≤ c.toNat ∧ c.toNat ≤ 57 := by
  simp only [Char.isDigit, Bool.and_eq_true, decide_eq_true_eq] at h
  exact ⟨h.1, h.2⟩

theorem lengthLine_ascii (n : Nat) : ∀ c ∈ lengthLine n, c.toNat < 128 ∧ c ≠ '\n' := by
  intro c hc
  unfold lengthLine at hc
  rw [List.mem_append, List.mem_append, List.mem_cons] at hc
  rcases hc with (hc | rfl | hc) | hc
  · have hmark : (lengthMark.all fun c => decide (c.toNat < 128 ∧ c ≠ '\n')) = true := by decide
    exact of_decide_eq_true (List.all_eq_true.mp hmark c hc)
  · decide
  · have hdigit := Nat.isDigit_of_mem_toDigits (by decide) (by decide) hc
    exact ⟨Nat.lt_of_le_of_lt (toNat_of_isDigit hdigit).2 (by decide), Json.isDigit_ne hdigit rfl⟩
  · rw [List.mem_singleton] at hc
    subst hc
    decide

/-- Nothing is dropped from a number at its front or at its end, if no digit is dropped. -/
theorem dropWhile_toDigits {drop : Char → Bool} (h : ∀ c : Char, c.isDigit = true → drop c = false)
    (n : Nat) (rest : List Char) :
    (Nat.toDigits 10 n ++ rest).dropWhile drop = Nat.toDigits 10 n ++ rest ∧
      ((Nat.toDigits 10 n).reverse ++ rest).dropWhile drop = (Nat.toDigits 10 n).reverse ++ rest := by
  have hdigits : ∀ c ∈ Nat.toDigits 10 n, drop c = false := fun c hc =>
    h c (Nat.isDigit_of_mem_toDigits (by decide) (by decide) hc)
  -- only the first character decides, and it is a digit from either end
  have hfront : ∀ cs : List Char, cs ≠ [] → (∀ c ∈ cs, drop c = false) →
      (cs ++ rest).dropWhile drop = cs ++ rest := by
    intro cs hne hcs
    cases cs with
    | nil => exact absurd rfl hne
    | cons c cs => exact List.dropWhile_cons_of_neg (by simp [hcs c List.mem_cons_self])
  exact ⟨hfront _ Nat.toDigits_ne_nil hdigits,
    hfront _ (fun hnil => Nat.toDigits_ne_nil (List.reverse_eq_nil_iff.mp hnil))
      fun c hc => hdigits c (List.mem_reverse.mp hc)⟩

/-- The end of the line is taken off. -/
theorem body_lengthLine (n : Nat) :
    body (lengthLine n ++ ['\n']) = lengthMark ++ ' ' :: Nat.toDigits 10 n := by
  have hkept : ∀ c : Char, c.isDigit = true → endsLine c = false := fun c hc => by
    simp [endsLine, Json.isDigit_ne hc]
  have hreversed : (lengthLine n ++ ['\n']).reverse =
      '\n' :: '\r' :: ((Nat.toDigits 10 n).reverse ++ (' ' :: lengthMark.reverse)) := by
    simp [lengthLine]
  unfold body
  rw [hreversed, List.dropWhile_cons_of_pos rfl, List.dropWhile_cons_of_pos rfl,
    (dropWhile_toDigits hkept n _).2]
  simp

/-- **A length is read as it was written.** -/
theorem ofLine_lengthLine {n : Nat} (h : n ≤ Text.maxWord) :
    ofLine (lengthLine n ++ ['\n']) = .ok (.length n) := by
  -- no digit is blank, so that stripping takes the one space away and nothing else
  have hkept : ∀ c : Char, c.isDigit = true → Text.isBlank c = false := fun c hc => by
    obtain ⟨hlow, hhigh⟩ := toNat_of_isDigit hc
    simp [Text.isBlank]
    omega
  obtain ⟨hfront, hback⟩ := dropWhile_toDigits hkept n []
  have hcount : Text.strip Text.isBlank (' ' :: Nat.toDigits 10 n) = Nat.toDigits 10 n := by
    rw [List.append_nil] at hfront hback
    unfold Text.strip
    rw [List.dropWhile_cons_of_pos rfl, hfront, hback, List.reverse_reverse]
  have hmark : lengthMark.isPrefixOf (lengthMark ++ ' ' :: Nat.toDigits 10 n) = true :=
    List.isPrefixOf_iff_prefix.mpr (List.prefix_append _ _)
  have hnonempty : ¬ (lengthMark ++ ' ' :: Nat.toDigits 10 n).isEmpty = true := by
    simp
  unfold ofLine
  dsimp only
  rw [body_lengthLine, if_neg hnonempty, if_pos hmark, List.drop_left, hcount,
    Text.readCount_toDigits, if_pos h]
  rfl

/-- The line reads as the length that it gives. -/
theorem ofBytes_lengthLine {n : Nat} (h : n ≤ Text.maxWord) :
    ofBytes (Text.bytes (String.ofList (lengthLine n)) ++ [10]) = .ok (.length n) := by
  have htext : Text.bytes (String.ofList (lengthLine n)) ++ [10] =
      Text.bytes (String.ofList (lengthLine n ++ ['\n'])) := by
    rw [String.ofList_append, Text.bytes_append]
    rfl
  unfold ofBytes
  rw [htext, Text.ofBytes?_bytes]
  dsimp only
  rw [String.toList_ofList, ofLine_lengthLine h]
  rfl

end Header

namespace Message

/-! ### Frames -/

variable {m : Message} {n : Nat}

/-- **The bytes of a frame.** -/
def frame (m : Message) : List UInt8 := Text.bytes m.framed

/-- A header is the line with the length and a blank line. -/
theorem bytes_header (n : Nat) :
    Text.bytes ("Content-Length: " ++ toString n ++ "\r\n\r\n") =
      Text.bytes (String.ofList (Header.lengthLine n)) ++ [10, 13, 10] := by
  have hline : "Content-Length: " ++ toString n ++ "\r\n\r\n" =
      String.ofList (Header.lengthLine n) ++ "\n\r\n" := by
    have hmark : "Content-Length: ".toList = Header.lengthMark ++ [' '] := by decide
    have hbreak : "\r\n\r\n".toList = ['\r'] ++ "\n\r\n".toList := by decide
    have hnumber : (toString n).toList = Nat.toDigits 10 n := by simp
    have hwritten : (String.ofList (Header.lengthLine n)).toList = Header.lengthLine n :=
      String.toList_ofList
    apply String.toList_inj.mp
    -- the line feed belongs to the break, the carriage return in front of it to the line
    rw [String.toList_append, String.toList_append, String.toList_append, hmark, hnumber, hbreak,
      hwritten, ← List.append_assoc, List.append_assoc Header.lengthMark]
    rfl
  have hends : Text.bytes "\n\r\n" = [10, 13, 10] := by decide +kernel
  rw [hline, Text.bytes_append, hends]

/-- A frame is the line with the length, a blank line and the text of the message. -/
theorem frame_eq (m : Message) :
    m.frame = Text.bytes (String.ofList (Header.lengthLine m.toJson.compact.utf8ByteSize)) ++
      10 :: ([13, 10] ++ Text.bytes m.toJson.compact) := by
  unfold frame framed
  dsimp only
  rw [Text.bytes_append, bytes_header, List.append_assoc]
  rfl

/-- A line is taken whole, whatever it says. -/
theorem readFrom_eq {length? : Option Nat} {bytes : List UInt8} (h : bytes ≠ []) :
    readFrom length? bytes = match Header.ofBytes (Text.takeLine bytes).1 with
      | .error f => .fault f (Text.takeLine bytes).2
      | .ok .blank => match length? with
        | none => readFrom none (Text.takeLine bytes).2
        | some n => readBody n (Text.takeLine bytes).2
      | .ok (.length n) => readFrom (some n) (Text.takeLine bytes).2
      | .ok .other => readFrom length? (Text.takeLine bytes).2 := by
  cases bytes with
  | nil => exact absurd rfl h
  | cons b bs => exact readFrom.eq_def length? (b :: bs)

theorem readFrom_nil (length? : Option Nat) : readFrom length? [] = .ended := by
  rw [readFrom]

/-- After the line with the length the body has that length. -/
theorem readFrom_lengthLine (h : n ≤ Text.maxWord) (length? : Option Nat) (rest : List UInt8) :
    readFrom length? (Text.bytes (String.ofList (Header.lengthLine n)) ++ 10 :: rest) =
      readFrom (some n) rest := by
  rw [readFrom_eq (by simp), Text.takeLine_append_cons
    (Text.not_mem_bytes_of_lt (Header.lengthLine_ascii n)), Header.ofBytes_lengthLine h]

/-- After the blank line comes the body. -/
theorem readFrom_blank (n : Nat) (rest : List UInt8) :
    readFrom (some n) (13 :: 10 :: rest) = readBody n rest := by
  have hblank : Header.ofBytes [13, 10] = .ok .blank := by rfl
  have hfeed : (10 : UInt8) ∉ [13] := by decide
  have hline : Text.takeLine (13 :: 10 :: rest) = ([13, 10], rest) :=
    Text.takeLine_append_cons hfeed rest
  rw [readFrom_eq (List.cons_ne_nil _ _), hline, hblank]

/-- What is no whole line gives no frame, and nothing is left behind it. -/
theorem read_of_not_mem {bytes : List UInt8} (h : 10 ∉ bytes) :
    read bytes = .ended ∨ ∃ fault, fault.endsStream = false ∧ read bytes = .fault fault [] := by
  cases bytes with
  | nil => exact .inl (readFrom_nil none)
  | cons b bs =>
    unfold read
    rw [readFrom_eq (List.cons_ne_nil b bs), Text.takeLine_of_not_mem h]
    dsimp only
    cases hheader : Header.ofBytes (b :: bs) with
    -- whatever the line says, the stream is over behind it
    | ok header => cases header <;> exact .inl (readFrom_nil _)
    | error fault =>
      refine .inr ⟨fault, ?_, rfl⟩
      unfold Header.ofBytes at hheader
      split at hheader
      · cases hheader
        rfl
      · next text _ =>
        cases hline : Header.ofLine text.toList with
        | ok header =>
          rw [hline] at hheader
          cases hheader
        | error length =>
          rw [hline] at hheader
          cases hheader
          rfl

/-- A body that is there is taken whole, if memory has room for it. -/
theorem readBody_append {body : List UInt8} (h : body.length ≤ Text.maxLength) (rest : List UInt8) :
    readBody body.length (body ++ rest) = match ofBody body with
      | .ok m => .message m rest
      | .error e => .fault (.body e) rest := by
  unfold readBody
  rewrite [if_neg (Nat.not_lt.mpr h), if_pos (List.length_append ▸ Nat.le_add_right _ _),
    List.take_left, List.drop_left]
  rfl

theorem readBody_cut {bytes : List UInt8} (hroom : n ≤ Text.maxLength) (h : bytes.length < n) :
    readBody n bytes = .fault .cut [] := by
  unfold readBody
  rw [if_neg (Nat.not_lt.mpr hroom), if_neg (Nat.not_le.mpr h)]

/-- A length for which there is no room is the end of the reader, whatever the stream holds. -/
theorem readBody_overflow (h : Text.maxLength < n) (bytes : List UInt8) :
    readBody n bytes = .overflow := if_pos h

theorem Sendable.size_le_maxWord (h : m.Sendable) :
    m.toJson.compact.utf8ByteSize ≤ Text.maxWord := Nat.le_trans h.size Text.maxLength_le_maxWord

/-- **A whole frame is taken as its message.** -/
theorem Sendable.read_frame (h : m.Sendable) (rest : List UInt8) :
    read (m.frame ++ rest) = .message m rest := by
  have hlength := Text.length_bytes m.toJson.compact
  have hbody : readBody m.toJson.compact.utf8ByteSize (Text.bytes m.toJson.compact ++ rest) =
      .message m rest := by
    rw [← hlength, readBody_append (hlength ▸ h.size), h.ofBody_compact]
  unfold read
  rw [frame_eq, List.append_assoc]
  change readFrom none (_ ++ 10 :: 13 :: 10 :: (Text.bytes m.toJson.compact ++ rest)) = _
  rw [readFrom_lengthLine h.size_le_maxWord, readFrom_blank]
  exact hbody

/-- A prefix of two lists in a row ends inside the first, or goes on in the second. -/
theorem prefix_append_cases {α : Type} {p xs ys : List α} (h : p <+: xs ++ ys) :
    (p <+: xs ∧ p.length < xs.length) ∨ ∃ q, q <+: ys ∧ p = xs ++ q := by
  obtain ⟨t, ht⟩ := h
  rcases List.append_eq_append_iff.mp ht with ⟨as, rfl, -⟩ | ⟨bs, rfl, hys⟩
  -- a prefix that ends with the first list goes on with nothing of the second
  · cases as with
    | nil => exact .inr ⟨[], List.nil_prefix, by simp⟩
    | cons a as => exact .inl ⟨List.prefix_append _ _, by simp⟩
  · exact .inr ⟨bs, ⟨t, hys.symm⟩, rfl⟩

/-- The text of a message is not empty. -/
theorem length_compact_pos (m : Message) : 0 < m.toJson.compact.utf8ByteSize := by
  refine Nat.pos_of_ne_zero fun hzero => ?_
  have hempty := congrArg String.toList (String.utf8ByteSize_eq_zero_iff.mp hzero)
  rw [Json.compact, String.toList_ofList] at hempty
  cases hempty

/-- **A frame that is cut off gives no message**, and nothing is left of it. -/
theorem Sendable.read_cut (h : m.Sendable) {bytes : List UInt8} (hinitial : bytes <+: m.frame)
    (hcut : bytes.length < m.frame.length) :
    read bytes = .ended ∨ read bytes = .fault .cut [] ∨
      ∃ fault, fault.endsStream = false ∧ read bytes = .fault fault [] := by
  have hpos := length_compact_pos m
  have hlength := Text.length_bytes m.toJson.compact
  rw [frame_eq, List.append_cons] at hinitial hcut
  rcases prefix_append_cases hinitial with ⟨hline, hshort⟩ | ⟨q, hq, rfl⟩
  · -- in the line with the length
    have hinside : bytes <+: Text.bytes
        (String.ofList (Header.lengthLine m.toJson.compact.utf8ByteSize)) :=
      List.prefix_of_prefix_length_le hline (List.prefix_append _ _) (by
        rw [List.length_append] at hshort
        exact Nat.le_of_lt_succ hshort)
    have hunended : 10 ∉ bytes := fun hmem =>
      Text.not_mem_bytes_of_lt (Header.lengthLine_ascii _) (hinside.subset hmem)
    exact (read_of_not_mem hunended).imp_right .inr
  · -- behind it, where the length is known
    have hbehind : read (Text.bytes (String.ofList (Header.lengthLine
        m.toJson.compact.utf8ByteSize)) ++ [10] ++ q) =
          readFrom (some m.toJson.compact.utf8ByteSize) q := by
      rw [List.append_assoc]
      exact readFrom_lengthLine h.size_le_maxWord none q
    have hshort : q.length < 2 + (Text.bytes m.toJson.compact).length := by
      simp only [List.length_append, List.length_cons, List.length_nil] at hcut
      omega
    rw [hbehind]
    cases q with
    | nil => exact .inl (readFrom_nil _)
    | cons b q =>
      obtain ⟨rfl, hrest⟩ := List.cons_prefix_cons.mp hq
      cases q with
      | nil =>
        -- in the blank line
        have hblank : Header.ofBytes [13] = .ok .blank := by rfl
        refine .inr (.inl ?_)
        rw [readFrom_eq (List.cons_ne_nil _ _), Text.takeLine_of_not_mem (by decide), hblank]
        exact readBody_cut h.size hpos
      | cons b q =>
        obtain ⟨rfl, -⟩ := List.cons_prefix_cons.mp hrest
        -- in the body
        refine .inr (.inl ?_)
        rw [readFrom_blank]
        refine readBody_cut h.size ?_
        rw [List.length_cons, List.length_cons] at hshort
        omega

/-! ### Streams -/

/-- **What reading a stream gives**, one result after the other, as long as the reader goes on: a
message, a fault, or at the end nothing. A frame too long to be read gives no result at all. -/
def results (bytes : List UInt8) : List (Except FrameFault (Option Message)) :=
  match _h : read bytes with
  | .ended => [.ok none]
  | .message m rest => .ok (some m) :: results rest
  | .fault fault rest => .error fault :: if fault.endsStream then [] else results rest
  | .overflow => []
termination_by bytes.length
decreasing_by all_goals exact rest_length_lt (by rw [_h]; rfl)

theorem results_of_ended {bytes : List UInt8} (h : read bytes = .ended) :
    results bytes = [.ok none] := by
  rw [results]
  split
  · rfl
  all_goals next heq => cases h.symm.trans heq

theorem results_of_message {bytes rest : List UInt8} (h : read bytes = .message m rest) :
    results bytes = .ok (some m) :: results rest := by
  rw [results]
  split
  · next heq => cases h.symm.trans heq
  · next heq =>
    cases h.symm.trans heq
    rfl
  · next heq => cases h.symm.trans heq
  · next heq => cases h.symm.trans heq

theorem results_of_fault {bytes rest : List UInt8} {fault : FrameFault}
    (h : read bytes = .fault fault rest) :
    results bytes = .error fault :: if fault.endsStream then [] else results rest := by
  rw [results]
  split
  · next heq => cases h.symm.trans heq
  · next heq => cases h.symm.trans heq
  · next heq =>
    cases h.symm.trans heq
    rfl
  · next heq => cases h.symm.trans heq

theorem results_of_overflow {bytes : List UInt8} (h : read bytes = .overflow) :
    results bytes = [] := by
  rw [results]
  split
  · next heq => cases h.symm.trans heq
  · next heq => cases h.symm.trans heq
  · next heq => cases h.symm.trans heq
  · rfl

/-- The message that a result is. -/
def delivered? : Except FrameFault (Option Message) → Option Message
  | .ok m? => m?
  | .error _ => none

/-- The messages of a stream are those among the results. -/
theorem readAll_eq (bytes : List UInt8) : readAll bytes = (results bytes).filterMap delivered? := by
  -- one case for each way in which the next read comes out
  fun_induction readAll bytes with
  | case1 bytes h =>
    rw [results_of_ended h]
    rfl
  | case2 bytes m rest h ih =>
    rw [results_of_message h, ih]
    rfl
  | case3 bytes fault rest h hends =>
    rw [results_of_fault h, if_pos hends]
    rfl
  | case4 bytes fault rest h hends ih =>
    rw [results_of_fault h, if_neg hends, ih]
    rfl
  | case5 bytes h =>
    rw [results_of_overflow h]
    rfl

/-- **The frames of messages**, one behind the other. -/
def stream (ms : List Message) : List UInt8 := ms.flatMap frame

/-- **The reader comes to its end** and delivers nothing more: the stream is over, it ends inside a
body, or it is over after a line that gives no length. -/
def EndsQuietly (tail : List (Except FrameFault (Option Message))) : Prop :=
  tail = [.ok none] ∨ tail = [.error .cut] ∨
    ∃ fault, fault.endsStream = false ∧ tail = [.error fault, .ok none]

/-- What is left of a frame that is cut off ends the stream quietly. -/
theorem Sendable.endsQuietly (h : m.Sendable) {bytes : List UInt8} (hinitial : bytes <+: m.frame)
    (hcut : bytes.length < m.frame.length) : EndsQuietly (results bytes) := by
  have hnothing : results [] = [.ok none] := results_of_ended (readFrom_nil none)
  rcases h.read_cut hinitial hcut with hended | hcut | ⟨fault, hends, hfault⟩
  · exact .inl (results_of_ended hended)
  · exact .inr (.inl (results_of_fault hcut))
  · refine .inr (.inr ⟨fault, hends, ?_⟩)
    rw [results_of_fault hfault, hends, hnothing]
    rfl

/-- A stream that is cut off is read as far as its frames are whole. -/
theorem results_of_prefix {ms : List Message} (h : ∀ m ∈ ms, m.Sendable) {bytes : List UInt8}
    (hinitial : bytes <+: stream ms) :
    ∃ k ≤ ms.length, (∀ j ≤ ms.length, stream (ms.take j) <+: bytes ↔ j ≤ k) ∧
      ∃ tail, EndsQuietly tail ∧
        results bytes = ((ms.take k).map fun m => .ok (some m)) ++ tail := by
  -- over the messages: the first frame is either cut off, or whole with the rest behind it
  induction ms generalizing bytes with
  | nil =>
    obtain rfl : bytes = [] := List.prefix_nil.mp hinitial
    refine ⟨0, Nat.le_refl _, ?_, _, .inl rfl, results_of_ended (readFrom_nil none)⟩
    intro j hj
    obtain rfl : j = 0 := Nat.le_zero.mp hj
    exact ⟨fun _ => Nat.le_refl _, fun _ => List.prefix_refl _⟩
  | cons m ms ih =>
    have hm := h m List.mem_cons_self
    have hstream : ∀ ms, stream (m :: ms) = m.frame ++ stream ms := fun _ => List.flatMap_cons
    rw [hstream] at hinitial
    rcases prefix_append_cases hinitial with ⟨hframe, hcut⟩ | ⟨q, hq, rfl⟩
    · -- the first frame is cut off
      refine ⟨0, Nat.zero_le _, ?_, _, hm.endsQuietly hframe hcut, rfl⟩
      intro j _
      cases j with
      | zero => exact ⟨fun _ => Nat.le_refl _, fun _ => List.nil_prefix⟩
      | succ j =>
        refine ⟨fun hwhole => ?_, fun hj => by cases hj⟩
        rw [List.take_succ_cons, hstream] at hwhole
        have hlong := hwhole.length_le
        rw [List.length_append] at hlong
        omega
    · obtain ⟨k, hk, hwhole, tail, htail, hresults⟩ :=
        ih (fun m' hm' => h m' (List.mem_cons_of_mem _ hm')) hq
      refine ⟨k + 1, Nat.succ_le_succ hk, ?_, tail, htail, ?_⟩
      · intro j hj
        cases j with
        | zero => exact ⟨fun _ => Nat.zero_le _, fun _ => List.nil_prefix⟩
        | succ j =>
          rw [List.take_succ_cons, hstream, List.prefix_append_right_inj,
            hwhole j (Nat.le_of_succ_le_succ hj), Nat.succ_le_succ_iff]
      · rw [results_of_message (hm.read_frame q), hresults]
        rfl

/-- **Framing and reading undo each other**, for any messages that can be sent. Reading their frames
gives exactly these messages, in order, and then nothing. Reading a prefix of their frames, wherever it is
cut off, gives exactly the messages whose frames lie inside the prefix, and then the reader comes to its
end without another message. -/
theorem results_stream (ms : List Message) (h : ∀ m ∈ ms, m.Sendable) :
    results (stream ms) = (ms.map fun m => .ok (some m)) ++ [.ok none] ∧
      readAll (stream ms) = ms ∧
      ∀ bytes, bytes <+: stream ms →
        ∃ k ≤ ms.length, (∀ j ≤ ms.length, stream (ms.take j) <+: bytes ↔ j ≤ k) ∧
          readAll bytes = ms.take k ∧ ∃ tail, EndsQuietly tail ∧
            results bytes = ((ms.take k).map fun m => .ok (some m)) ++ tail := by
  -- what stands behind the messages is an end or a fault, and delivers nothing
  have hdelivered : ∀ {ms : List Message} {tail}, EndsQuietly tail →
      (ms.map (Except.ok ∘ some) ++ tail).filterMap delivered? = ms := by
    intro ms tail htail
    have hnone : tail.filterMap delivered? = [] := by
      rcases htail with rfl | rfl | ⟨fault, -, rfl⟩ <;> rfl
    rw [List.filterMap_append, hnone, List.append_nil, List.filterMap_map]
    exact List.filterMap_some
  have hwhole : results (stream ms) = (ms.map fun m => .ok (some m)) ++ [.ok none] := by
    induction ms with
    | nil => exact results_of_ended (readFrom_nil none)
    | cons m ms ih =>
      have hstream : stream (m :: ms) = m.frame ++ stream ms := List.flatMap_cons
      rw [hstream, results_of_message ((h m List.mem_cons_self).read_frame _),
        ih fun m' hm' => h m' (List.mem_cons_of_mem _ hm')]
      rfl
  refine ⟨hwhole, ?_, ?_⟩
  · rw [readAll_eq, hwhole]
    exact hdelivered (.inl rfl)
  · intro bytes hinitial
    obtain ⟨k, hk, hinside, tail, htail, hresults⟩ := results_of_prefix h hinitial
    refine ⟨k, hk, hinside, ?_, tail, htail, hresults⟩
    rw [readAll_eq, hresults]
    exact hdelivered htail

/-- A request, its response and a notice. -/
def exchange : List Message := [
  ⟨1, "request", .request ⟨"evaluate", some (.object [
    ("expression", .string "\"ä\\\x01€\""), ("frame", .array [.int (-7), .bool true, .null])])⟩⟩,
  ⟨18446744073709551615, "response", .response ⟨1, false, "evaluate", some "no\n", none⟩⟩,
  ⟨2, "event", .notice ⟨"output", some (.object [])⟩⟩]

/-- An exchange is read as it was written, and without its last byte up to the last message. -/
theorem read_exchange : (∀ m ∈ exchange, m.Sendable) ∧ readAll (stream exchange) = exchange ∧
    readAll (stream exchange).dropLast = exchange.take 2 := by
  have hsendable : ∀ m ∈ exchange, m.Sendable := by
    refine List.forall_mem_cons.mpr ⟨?_, List.forall_mem_cons.mpr ⟨?_, List.forall_mem_cons.mpr
      ⟨?_, List.forall_mem_nil _⟩⟩⟩
    · refine ⟨by decide, fun r hr => (by cases hr), ?_, by decide +kernel⟩
      rintro j ⟨⟩
      exact ⟨nofun, rfl, by decide +kernel, by decide⟩
    · refine ⟨by decide, ?_, fun j hj => (by cases hj), by decide +kernel⟩
      rintro r ⟨⟩
      decide
    · refine ⟨by decide, fun r hr => (by cases hr), ?_, by decide +kernel⟩
      rintro j ⟨⟩
      exact ⟨nofun, rfl, by decide +kernel, by decide⟩
  obtain ⟨-, hwhole, hcut⟩ := results_stream exchange hsendable
  obtain ⟨k, hk, hinside, hread, -⟩ := hcut _ (List.dropLast_prefix _)
  -- the last byte is missing, so that the third frame is cut off
  have htwo : stream (exchange.take 2) <+: (stream exchange).dropLast := by decide +kernel
  have hthree : ¬ stream (exchange.take 3) <+: (stream exchange).dropLast := by decide +kernel
  have hlow : 2 ≤ k := (hinside 2 (by decide)).mp htwo
  have hhigh : ¬ 3 ≤ k := fun hle => hthree ((hinside 3 (Nat.le_refl 3)).mpr hle)
  obtain rfl : k = 2 := by omega
  exact ⟨hsendable, hwhole, hread⟩

end Message

end BytecodeDebugger
