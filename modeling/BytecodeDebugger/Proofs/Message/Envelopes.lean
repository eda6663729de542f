import BytecodeDebugger.Proofs.Message.Framing

/-!
# Frames with any body

A frame is taken from the stream whole, whatever its body holds: the reader stands at the next frame
behind it. Whether it goes on there is another matter. A body that is no message is passed over, be it
no JSON, JSON of another shape or no text at all; but a body of JSON that ends early is taken for the
end of the stream, although its frame was whole, and what stands behind it is never read.

Main statement: `Envelope.heard_of_frames`, for any frames, with the exact condition under which every
readable one is delivered.
-/

namespace BytecodeDebugger

namespace Text

/-- Blanks around a text that neither begins nor ends with one are stripped. -/
theorem strip_append {drop : Char → Bool} {lead mid trail : List Char}
    (hlead : ∀ c ∈ lead, drop c = true) (htrail : ∀ c ∈ trail, drop c = true)
    (hfront : mid.dropWhile drop = mid) (hback : mid.reverse.dropWhile drop = mid.reverse)
    (hne : mid ≠ []) : strip drop (lead ++ mid ++ trail) = mid := by
  -- the part in the middle begins with a character that stays
  have hbegins : (mid ++ trail).dropWhile drop = mid ++ trail := by
    cases mid with
    | nil => exact absurd rfl hne
    | cons c cs =>
      have hc : ¬ drop c = true := fun hdrop => by
        have hlength := congrArg List.length hfront
        have hle := (List.dropWhile_suffix drop (l := cs)).length_le
        rw [List.dropWhile_cons_of_pos hdrop, List.length_cons] at hlength
        omega
      exact List.dropWhile_cons_of_neg hc
  unfold strip
  rw [List.append_assoc, List.dropWhile_append_of_pos hlead, hbegins, List.reverse_append,
    List.dropWhile_append_of_pos fun c hc => htrail c (List.mem_reverse.mp hc), hback,
    List.reverse_reverse]

end Text

/-- What ends a line of a header: a line feed, alone or behind a carriage return. -/
inductive LineBreak where
  | feed
  | returnFeed
  deriving DecidableEq, Repr

/-- What stands in front of the line feed. -/
def LineBreak.front : LineBreak → List Char
  | .feed => []
  | .returnFeed => ['\r']

/-- **A whole frame with any body**: a line that gives the length of the body, with spaces and tabs
around the number or none, an empty line, and the body, for which there is room in memory. -/
structure Envelope where
  lead : List Char := [' ']
  trail : List Char := []
  lengthBreak : LineBreak := .returnFeed
  emptyBreak : LineBreak := .returnFeed
  body : List UInt8
  spaced : ∀ c ∈ lead ++ trail, c = ' ' ∨ c = '\t' := by simp
  size : body.length ≤ Text.maxLength

namespace Envelope

open Message (delivered? ofBody read readAll readBody readFrom results)

variable (e : Envelope)

/-- The line with the length, up to the line feed. -/
def lengthLine : List Char :=
  Header.lengthMark ++ (e.lead ++ Nat.toDigits 10 e.body.length ++ e.trail) ++ e.lengthBreak.front

/-- The bytes of a frame. -/
def bytes : List UInt8 :=
  Text.bytes (String.ofList e.lengthLine) ++
    10 :: (Text.bytes (String.ofList e.emptyBreak.front) ++ 10 :: e.body)

/-- The message that the body is. -/
def message? : Option Message := (ofBody e.body).toOption

/-- What reading the frame gives. -/
def result : Except FrameFault (Option Message) := ((ofBody e.body).map some).mapError .body

/-- Whether the body is JSON that ends early. -/
def cutShort : Bool :=
  match ofBody e.body with
  | .error .early => true
  | _ => false

/-! ### One frame -/

theorem lengthMark_ne_nil : Header.lengthMark ≠ [] := by decide

theorem isBlank_of_spaced {c : Char} (h : c = ' ' ∨ c = '\t') :
    Text.isBlank c = true ∧ Header.endsLine c = false ∧ c.toNat < 128 ∧ c ≠ '\n' := by
  rcases h with rfl | rfl <;> decide

theorem lengthLine_ascii : ∀ c ∈ e.lengthLine, c.toNat < 128 ∧ c ≠ '\n' := by
  intro c hc
  unfold lengthLine at hc
  rcases List.mem_append.mp hc with hc | hbreak
  · rcases List.mem_append.mp hc with hmark | hc
    · exact Header.lengthLine_ascii 0 c (List.mem_append_left _ (List.mem_append_left _ hmark))
    · rcases List.mem_append.mp hc with hc | htrail
      · rcases List.mem_append.mp hc with hlead | hdigit
        · exact (isBlank_of_spaced (e.spaced c (List.mem_append_left _ hlead))).2.2
        · exact Header.lengthLine_ascii e.body.length c (by simp [Header.lengthLine, hdigit])
      · exact (isBlank_of_spaced (e.spaced c (List.mem_append_right _ htrail))).2.2
  · revert hbreak
    cases e.lengthBreak <;> simp +contextual [LineBreak.front]

/-- The end of the line is taken off, the blanks behind the number stay. -/
theorem body_lengthLine : Header.body (e.lengthLine ++ ['\n']) =
    Header.lengthMark ++ (e.lead ++ Nat.toDigits 10 e.body.length ++ e.trail) := by
  have hkept : ∀ c : Char, c.isDigit = true → Header.endsLine c = false := fun c hc => by
    simp [Header.endsLine, Json.isDigit_ne hc]
  -- behind the break comes a blank, or the last digit if there is none
  have hstays : ∀ rest : List Char,
      (e.trail.reverse ++ ((Nat.toDigits 10 e.body.length).reverse ++ rest)).dropWhile
          Header.endsLine =
        e.trail.reverse ++ ((Nat.toDigits 10 e.body.length).reverse ++ rest) := by
    intro rest
    cases htrail : e.trail.reverse with
    | nil => exact (Header.dropWhile_toDigits hkept e.body.length rest).2
    | cons c cs =>
      have hmem : c ∈ e.trail := List.mem_reverse.mp (htrail ▸ List.mem_cons_self)
      have hends := (isBlank_of_spaced (e.spaced c (List.mem_append_right _ hmem))).2.1
      exact List.dropWhile_cons_of_neg (by simp [hends])
  -- the break is cut off in either spelling
  have hbreak : (e.lengthLine ++ ['\n']).reverse.dropWhile Header.endsLine =
      (Header.lengthMark ++
        (e.lead ++ Nat.toDigits 10 e.body.length ++ e.trail)).reverse.dropWhile
          Header.endsLine := by
    unfold lengthLine
    cases e.lengthBreak <;> simp [LineBreak.front, Header.endsLine]
  have hline : (Header.lengthMark ++
      (e.lead ++ Nat.toDigits 10 e.body.length ++ e.trail)).reverse =
      e.trail.reverse ++ ((Nat.toDigits 10 e.body.length).reverse ++
        (e.lead.reverse ++ Header.lengthMark.reverse)) := by
    simp
  unfold Header.body
  rw [hbreak, hline, hstays, ← hline, List.reverse_reverse]

/-- **The line reads as the length that it gives**, however it is spaced. -/
theorem ofBytes_lengthLine :
    Header.ofBytes (Text.bytes (String.ofList e.lengthLine) ++ [10]) =
      .ok (.length e.body.length) := by
  have hkept : ∀ c : Char, c.isDigit = true → Text.isBlank c = false := fun c hc => by
    obtain ⟨hlow, hhigh⟩ := Header.toNat_of_isDigit hc
    simp [Text.isBlank]
    omega
  obtain ⟨hfront, hback⟩ := Header.dropWhile_toDigits hkept e.body.length []
  rw [List.append_nil] at hfront hback
  -- what is between the mark and the break is blank but for the digits
  have hcount : Text.strip Text.isBlank (e.lead ++ Nat.toDigits 10 e.body.length ++ e.trail) =
      Nat.toDigits 10 e.body.length :=
    Text.strip_append
      (fun c hc => (isBlank_of_spaced (e.spaced c (List.mem_append_left _ hc))).1)
      (fun c hc => (isBlank_of_spaced (e.spaced c (List.mem_append_right _ hc))).1)
      hfront hback Nat.toDigits_ne_nil
  have hline : Header.ofLine (e.lengthLine ++ ['\n']) = .ok (.length e.body.length) := by
    have hmark := List.isPrefixOf_iff_prefix.mpr (List.prefix_append Header.lengthMark
      (e.lead ++ Nat.toDigits 10 e.body.length ++ e.trail))
    have hnonempty : ¬ (Header.lengthMark ++
        (e.lead ++ Nat.toDigits 10 e.body.length ++ e.trail)).isEmpty = true := by
      rw [List.isEmpty_iff, List.append_eq_nil_iff]
      exact fun h => lengthMark_ne_nil h.1
    unfold Header.ofLine
    dsimp only
    rw [e.body_lengthLine, if_neg hnonempty, if_pos hmark, List.drop_left, hcount,
      Text.readCount_toDigits, if_pos (Nat.le_trans e.size Text.maxLength_le_maxWord)]
    rfl
  have htext : Text.bytes (String.ofList e.lengthLine) ++ [10] =
      Text.bytes (String.ofList (e.lengthLine ++ ['\n'])) := by
    rw [String.ofList_append, Text.bytes_append]
    rfl
  unfold Header.ofBytes
  rw [htext, Text.ofBytes?_bytes]
  dsimp only
  rw [String.toList_ofList, hline]
  rfl

/-- **A frame is taken whole, whatever its body holds**: the reader stands behind it. -/
theorem read_bytes (rest : List UInt8) :
    read (e.bytes ++ rest) = match ofBody e.body with
      | .ok m => .message m rest
      | .error error => .fault (.body error) rest := by
  -- one line after the other: the length, the empty line and the body
  have hlength : ∀ rest, readFrom none (Text.bytes (String.ofList e.lengthLine) ++ 10 :: rest) =
      readFrom (some e.body.length) rest := fun rest => by
    rw [Message.readFrom_eq (by simp), Text.takeLine_append_cons
      (Text.not_mem_bytes_of_lt e.lengthLine_ascii), e.ofBytes_lengthLine]
  have hempty : ∀ rest, readFrom (some e.body.length)
      (Text.bytes (String.ofList e.emptyBreak.front) ++ 10 :: rest) =
        readBody e.body.length rest := by
    intro rest
    cases e.emptyBreak with
    | feed =>
      have hblank : Header.ofBytes [10] = .ok .blank := by rfl
      have hline : Text.takeLine (10 :: rest) = ([10], rest) :=
        Text.takeLine_append_cons List.not_mem_nil rest
      change readFrom (some e.body.length) (10 :: rest) = _
      rw [Message.readFrom_eq (List.cons_ne_nil _ _), hline, hblank]
    | returnFeed => exact Message.readFrom_blank e.body.length rest
  unfold Message.read bytes
  rw [List.append_assoc, List.cons_append, hlength, List.append_assoc, List.cons_append, hempty]
  exact Message.readBody_append e.size rest

/-! ### Streams of frames -/

/-- **The bytes of frames**, one behind the other. -/
def stream (es : List Envelope) : List UInt8 := es.flatMap bytes

/-- **The frames that are read for their messages**: those in front of the first whose body ends early. -/
def heard (es : List Envelope) : List Envelope := es.takeWhile fun e => !e.cutShort

theorem stream_cons (es : List Envelope) : stream (e :: es) = e.bytes ++ stream es :=
  List.flatMap_cons

/-- Behind a body that ends early nothing is read; behind every other body the next frame is. -/
theorem results_cons (es : List Envelope) : results (stream (e :: es)) =
    if e.cutShort then [.error (.body .early)] else e.result :: results (stream es) := by
  have hread := e.read_bytes (stream es)
  rw [← stream_cons] at hread
  unfold cutShort result
  cases hbody : ofBody e.body with
  | ok m =>
    rw [hbody] at hread
    rw [Message.results_of_message hread]
    rfl
  | error error =>
    rw [hbody] at hread
    rw [Message.results_of_fault hread]
    cases error <;> rfl

/-- **What reading frames gives**: one result for each frame that is heard, and then the end, that of
the stream or one that is only taken for it. -/
theorem results_eq_heard (es : List Envelope) : results (stream es) =
    (heard es).map result ++
      [if (heard es).length = es.length then .ok none else .error (.body .early)] := by
  -- over the envelopes: one that is cut short ends the stream for the reader
  induction es with
  | nil => exact Message.results_of_ended (Message.readFrom_nil none)
  | cons e es ih =>
    rw [results_cons]
    unfold heard
    cases hshort : e.cutShort with
    | true => simp [hshort]
    | false =>
      rw [List.takeWhile_cons_of_pos (by simp [hshort]), ih, List.map_cons, List.cons_append,
        List.length_cons, List.length_cons]
      simp only [Nat.add_right_cancel_iff]
      rfl

/-- A result delivers the message that the body is. -/
theorem delivered?_result : delivered? e.result = e.message? := by
  unfold result message?
  cases ofBody e.body <;> rfl

/-- What is delivered are the messages of the frames that are heard. -/
theorem readAll_stream (es : List Envelope) :
    readAll (stream es) = (heard es).filterMap message? := by
  have hlast : delivered? (if (heard es).length = es.length then (.ok none)
      else (.error (.body .early))) = none := by
    split <;> rfl
  rw [Message.readAll_eq, results_eq_heard, List.filterMap_append, List.filterMap_map,
    List.filterMap_cons_none hlast, List.filterMap_nil, List.append_nil]
  have hfun : delivered? ∘ result = message? := funext delivered?_result
  rw [hfun]

theorem message?_of_cutShort (h : e.cutShort = true) : e.message? = none := by
  unfold cutShort at h
  unfold message?
  cases hbody : ofBody e.body with
  | ok m => rw [hbody] at h; cases h
  | error error => rfl

/-- All frames are heard but perhaps the last, exactly when no other body ends early. -/
theorem length_le_heard_iff (es : List Envelope) :
    es.length ≤ (heard es).length + 1 ↔ ∀ e ∈ es.dropLast, e.cutShort = false := by
  -- over the envelopes; the last one may be cut short without being missed
  induction es with
  | nil => simp [heard]
  | cons e es ih =>
    cases es with
    | nil => simp [heard]
    | cons e' es =>
      rw [List.dropLast_cons_cons, List.forall_mem_cons, ← ih]
      unfold heard
      cases hshort : e.cutShort with
      | true => simp [hshort]
      | false =>
        rw [List.takeWhile_cons_of_pos (by simp [hshort])]
        simp only [List.length_cons, true_and]
        omega

/-- When only the last body may end early, the messages heard are all there are. -/
theorem filterMap_heard {es : List Envelope} (h : ∀ e ∈ es.dropLast, e.cutShort = false) :
    (heard es).filterMap message? = es.filterMap message? := by
  -- over the envelopes, all of which are heard but perhaps the last
  induction es with
  | nil => rfl
  | cons e es ih =>
    cases hshort : e.cutShort with
    | true =>
      cases es with
      | nil => simp [heard, hshort, e.message?_of_cutShort hshort]
      | cons e' es => exact absurd (h e List.mem_cons_self) (by simp [hshort])
    | false =>
      have hrest : ∀ e' ∈ es.dropLast, e'.cutShort = false := by
        cases es with
        | nil => exact List.forall_mem_nil _
        | cons e' es => exact fun e'' he'' => h e'' (List.mem_cons_of_mem _ he'')
      unfold heard at ih ⊢
      rw [List.takeWhile_cons_of_pos (by simp [hshort]), List.filterMap_cons, List.filterMap_cons,
        ih hrest]

/-- **What is heard of a sequence of whole frames**, whatever their bodies hold. The reader gives one
result for each frame up to the first body of JSON that ends early and delivers the messages among
them, in order; there, or behind the last frame, it ends. So every readable frame is delivered and the
reader comes to the last frame exactly when no body but perhaps the last ends early: every other body
that is no message is passed over. -/
theorem heard_of_frames (es : List Envelope) :
    results (stream es) = (heard es).map result ++
        [if (heard es).length = es.length then .ok none else .error (.body .early)] ∧
      readAll (stream es) = (heard es).filterMap message? ∧
      ((readAll (stream es) = es.filterMap message? ∧ es.length ≤ (results (stream es)).length) ↔
        ∀ e ∈ es.dropLast, e.cutShort = false) := by
  refine ⟨results_eq_heard es, readAll_stream es, ?_⟩
  have hlength : (results (stream es)).length = (heard es).length + 1 := by
    rw [results_eq_heard, List.length_append, List.length_map, List.length_singleton]
  rw [hlength, length_le_heard_iff]
  constructor
  · exact fun h => h.2
  · exact fun h => ⟨(readAll_stream es).trans (filterMap_heard h), h⟩

/-- A request that lost its last byte, and one that is whole. -/
def cutThenWhole : List Envelope := [
  { body := Text.bytes "\x7b\"seq\":1,\"type\":\"request\"", size := by decide +kernel },
  { body := Text.bytes "\x7b\"seq\":2,\"type\":\"request\",\"command\":\"initialize\"\x7d",
    size := by decide +kernel }]

/-- Behind a request that lost its last byte a whole one is not heard, although both frames are whole. -/
theorem not_heard_behind_a_cut : ¬ ∀ es : List Envelope,
    readAll (stream es) = es.filterMap message? ∧ es.length ≤ (results (stream es)).length := by
  intro hall
  have hshort : (heard cutThenWhole).length = 0 := by decide +kernel
  have hlength := (hall cutThenWhole).2
  rw [results_eq_heard, List.length_append, List.length_map, hshort] at hlength
  exact absurd hlength (by decide)

end Envelope

end BytecodeDebugger
