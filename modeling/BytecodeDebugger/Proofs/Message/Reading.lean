import BytecodeDebugger.Message.Framing
import BytecodeDebugger.Proofs.Json.Decoding
import BytecodeDebugger.Proofs.Json.Reading

/-!
# Messages that are written are read back

A message that can be sent (`Message.Sendable`) is read from its JSON as it was, its variant included:
which variant it is shows in nothing but the fields that are there, and a variant is passed over when
one of the fields it needs is missing.

Main statement: `Message.ofBody_compact`.
-/

namespace BytecodeDebugger

open Json (Decoder Draft Scope)
open Json.Decoder (Field)

/-! ### Contents -/

namespace Content

/-- The value that goes with a content. -/
def payload? : Content → Option Json
  | .response r => r.body
  | .notice n => n.body
  | .request r => r.arguments

end Content

namespace Message

/-- **A message that can be sent**: its numbers have 64 bits, and the value that goes with it is not null,
holds no float, has fields that are told apart by their keys, and nests no deeper than the reader follows,
who meets it inside the message. Its text is no longer than a text in memory can be. -/
structure Sendable (m : Message) : Prop where
  seq : m.seq ≤ Text.maxWord
  requestSeq : ∀ r, m.content = .response r → r.requestSeq ≤ Text.maxWord
  payload : ∀ j, m.content.payload? = some j →
    j ≠ .null ∧ j.isPlain ∧ j.isOrdered ∧ j.nesting < Scope.ofText.depth
  size : m.toJson.compact.utf8ByteSize ≤ Text.maxLength

end Message

namespace Content

/-- The value is read as it was. -/
theorem payload_ofJson (scope : Scope) {x : Option Json}
    (h : ∀ j, x = some j → j ≠ .null ∧ j.isOrdered ∧ j.nesting ≤ scope.depth) :
    payload scope (Draft.ofJson (Json.option id x)) = .ok x := by
  cases x with
  | none => rfl
  | some j =>
    obtain ⟨hnull, hordered, hnesting⟩ := h j rfl
    have hread : ((Decoder.json scope (Draft.ofJson j)).map Json.canonical).map some =
        .ok (some j) := by
      unfold Decoder.json
      rw [Decoder.any_ofJson hnesting]
      exact congrArg (fun j => Except.ok (some j)) (Json.canonical_of_isOrdered hordered)
    cases j with
    | null => exact absurd rfl hnull
    | bool | int | float | string | array | object => exact hread

/-- Where the fields of a content are read: they nest as deep as they do. -/
def scope (c : Content) : Scope := ⟨Json.fieldsNesting c.fields, .shape none⟩

/-- The value that goes with a content nests no deeper than the fields of the content. -/
theorem nesting_payload {c : Content} {j : Json} (h : c.payload? = some j) :
    j.nesting ≤ c.scope.depth := by
  -- the payload is one of the fields, and no field is nested deeper than all of them
  have hfield : ∃ key, (key, j) ∈ c.fields := by
    cases c with
    | response r | notice r =>
      have hbody : r.body = some j := h
      exact ⟨"body", by simp [fields, hbody, Json.option]⟩
    | request r =>
      have harguments : r.arguments = some j := h
      exact ⟨"arguments", by simp [fields, harguments, Json.option]⟩
  obtain ⟨key, hmem⟩ := hfield
  exact Json.nesting_le_fieldsNesting hmem

/-- A response is read from its fields. -/
theorem decode_response {r : Response} (hseq : r.requestSeq ≤ Text.maxWord)
    (h : ∀ j, r.body = some j → j ≠ .null ∧ j.isOrdered) :
    Json.decodeValue Response.decoder (.object (fields (.response r))) = .ok r := by
  have hbody := payload_ofJson (scope (.response r)) fun j hj =>
    ⟨(h j hj).1, (h j hj).2, nesting_payload hj⟩
  have hnat : Decoder.nat (scope (.response r)) (.int r.requestSeq) = .ok r.requestSeq :=
    if_pos ⟨Int.natCast_nonneg _, Int.ofNat_le.mpr hseq⟩
  have hmessage : Decoder.option Decoder.string (scope (.response r))
      (Draft.ofJson (Json.option .string r.message)) = .ok r.message := by
    cases r.message <;> rfl
  unfold Json.decodeValue Response.decoder
  rw [Draft.ofJson, Decoder.record_object]
  -- the record is filled field by field, in the order in which they are written
  change (Decoder.fill (ρ := Response) _ (scope (.response r)) [] {} [
    (some "request_seq", .int r.requestSeq), (some "success", .bool r.success),
    (some "command", .string r.command),
    (some "message", Draft.ofJson (Json.option .string r.message)),
    (some "body", Draft.ofJson (Json.option id r.body))]).bind _ = _
  simp [Decoder.fill, Field.needed, Field.optional, hnat, hmessage, hbody, Decoder.bool,
    Decoder.string, Except.map, Except.bind, bind]

/-- A notice is read from its fields. -/
theorem decode_notice {n : Notice} (h : ∀ j, n.body = some j → j ≠ .null ∧ j.isOrdered) :
    Json.decodeValue Notice.decoder (.object (fields (.notice n))) = .ok n := by
  have hbody := payload_ofJson (scope (.notice n)) fun j hj =>
    ⟨(h j hj).1, (h j hj).2, nesting_payload hj⟩
  unfold Json.decodeValue Notice.decoder
  rw [Draft.ofJson, Decoder.record_object]
  change (Decoder.fill (ρ := Notice) _ (scope (.notice n)) [] {} [
    (some "event", .string n.event), (some "body", Draft.ofJson (Json.option id n.body))]).bind _ = _
  simp [Decoder.fill, Field.needed, Field.optional, hbody, Decoder.string, Except.map, Except.bind,
    bind]

/-- A request is read from its fields. -/
theorem decode_request {r : Request}
    (h : ∀ j, r.arguments = some j → j ≠ .null ∧ j.isOrdered) :
    Json.decodeValue Request.decoder (.object (fields (.request r))) = .ok r := by
  have harguments := payload_ofJson (scope (.request r)) fun j hj =>
    ⟨(h j hj).1, (h j hj).2, nesting_payload hj⟩
  unfold Json.decodeValue Request.decoder
  rw [Draft.ofJson, Decoder.record_object]
  change (Decoder.fill (ρ := Request) _ (scope (.request r)) [] {} [
    (some "command", .string r.command),
    (some "arguments", Draft.ofJson (Json.option id r.arguments))]).bind _ = _
  simp [Decoder.fill, Field.needed, Field.optional, harguments, Decoder.string, Except.map,
    Except.bind, bind]

/-- A notice is no response: it has no number of a request. -/
theorem decode_response_of_notice (n : Notice) :
    (Json.decodeValue Response.decoder (.object (fields (.notice n)))).toOption = none :=
  Decoder.record_missing List.mem_cons_self rfl (by simp [fields, Draft.ofFields, Field.needed])

/-- A request is no response, although it has a command. -/
theorem decode_response_of_request (r : Request) :
    (Json.decodeValue Response.decoder (.object (fields (.request r)))).toOption = none :=
  Decoder.record_missing List.mem_cons_self rfl (by simp [fields, Draft.ofFields, Field.needed])

/-- A request is no notice. -/
theorem decode_notice_of_request (r : Request) :
    (Json.decodeValue Notice.decoder (.object (fields (.request r)))).toOption = none :=
  Decoder.record_missing List.mem_cons_self rfl (by simp [fields, Draft.ofFields, Field.needed])

/-- **A content is read from its fields**, as the variant that it is. -/
theorem ofFields_fields {c : Content}
    (hseq : ∀ r, c = .response r → r.requestSeq ≤ Text.maxWord)
    (h : ∀ j, c.payload? = some j → j ≠ .null ∧ j.isOrdered) :
    ofFields c.fields = .ok c := by
  unfold ofFields
  -- the shapes are tried in turn, and only the message's own fits
  cases c with
  | response r =>
    dsimp only
    rw [decode_response (hseq r rfl) h]
    rfl
  | notice n =>
    dsimp only
    rw [decode_response_of_notice, decode_notice h]
    rfl
  | request r =>
    dsimp only
    rw [decode_response_of_request, decode_notice_of_request, decode_request h]
    rfl

end Content

namespace Message

/-- Fields that are not the message's own are kept as they stand. -/
theorem Parts.read_ofFields (scope : Scope) {fs : List (String × Json)}
    (h : ∀ f ∈ fs, f.1 ≠ "seq" ∧ f.1 ≠ "type" ∧ f.2.nesting ≤ scope.depth) (p : Parts) :
    Parts.read scope p (Draft.ofFields fs) = .ok { p with others := p.others ++ fs } := by
  -- neither number nor kind is among the fields, so that each is passed on as it stands
  induction fs generalizing p with
  | nil =>
    rw [List.append_nil]
    rfl
  | cons f fs ih =>
    obtain ⟨key, j⟩ := f
    obtain ⟨hseq, hkind, hnesting⟩ := h (key, j) List.mem_cons_self
    have hread : Decoder.json scope (Draft.ofJson j) = .ok j := Decoder.any_ofJson hnesting
    rw [Draft.ofFields, Parts.read, if_neg hseq, if_neg hkind, hread]
    refine (ih (fun f hf => h f (List.mem_cons_of_mem _ hf)) _).trans ?_
    rw [List.append_assoc]
    rfl

variable {m : Message}

theorem Sendable.nesting (h : m.Sendable) :
    ∀ f ∈ m.content.fields, f.1 ≠ "seq" ∧ f.1 ≠ "type" ∧ f.2.nesting ≤ 126 := by
  -- texts and numbers are no containers
  have hmessage : ∀ x : Option String, (Json.option .string x).nesting ≤ 126 := by
    intro x
    cases x <;> exact Nat.zero_le _
  have hpayload : (Json.option id m.content.payload?).nesting ≤ 126 := by
    cases hx : m.content.payload? with
    | none => exact Nat.zero_le _
    | some j => exact Nat.le_of_lt_succ (h.payload j hx).2.2.2
  intro f hf
  cases hcontent : m.content with
  | response r =>
    rw [hcontent] at hf hpayload
    simp only [Content.fields, List.mem_cons, List.not_mem_nil, or_false] at hf
    rcases hf with rfl | rfl | rfl | rfl | rfl
    · exact ⟨by simp, by simp, Nat.zero_le _⟩
    · exact ⟨by simp, by simp, Nat.zero_le _⟩
    · exact ⟨by simp, by simp, Nat.zero_le _⟩
    · exact ⟨by simp, by simp, hmessage r.message⟩
    · exact ⟨by simp, by simp, hpayload⟩
  | notice n =>
    rw [hcontent] at hf hpayload
    simp only [Content.fields, List.mem_cons, List.not_mem_nil, or_false] at hf
    rcases hf with rfl | rfl
    · exact ⟨by simp, by simp, Nat.zero_le _⟩
    · exact ⟨by simp, by simp, hpayload⟩
  | request r =>
    rw [hcontent] at hf hpayload
    simp only [Content.fields, List.mem_cons, List.not_mem_nil, or_false] at hf
    rcases hf with rfl | rfl
    · exact ⟨by simp, by simp, Nat.zero_le _⟩
    · exact ⟨by simp, by simp, hpayload⟩

/-- Numbers of 64 bits are plain. -/
theorem isPlain_nat {n : Nat} (h : n ≤ Text.maxWord) : (Json.nat n).isPlain = true :=
  decide_eq_true ⟨Int.le_trans (by decide) (Int.natCast_nonneg n), Int.ofNat_le.mpr h⟩

theorem Sendable.isPlain_toJson (h : m.Sendable) : m.toJson.isPlain = true := by
  have hmessage : ∀ x : Option String, (Json.option .string x).isPlain = true := by
    intro x
    cases x <;> rfl
  -- what is left out is written as null, and null is plain
  have hpayload : (Json.option id m.content.payload?).isPlain = true := by
    cases hx : m.content.payload? with
    | none => rfl
    | some j => exact (h.payload j hx).2.1
  have hseq := isPlain_nat h.seq
  have hrequest := h.requestSeq
  obtain ⟨seq, kind, content⟩ := m
  cases content with
  | response r =>
    have hanswered := isPlain_nat (hrequest r rfl)
    have hbody : (Json.option id r.body).isPlain = true := hpayload
    simp [toJson, Content.fields, Json.isPlain, Json.plainFields, hseq, hanswered, hmessage, hbody]
  | notice n =>
    have hbody : (Json.option id n.body).isPlain = true := hpayload
    simp [toJson, Content.fields, Json.isPlain, Json.plainFields, hseq, hbody]
  | request r =>
    have hbody : (Json.option id r.arguments).isPlain = true := hpayload
    simp [toJson, Content.fields, Json.isPlain, Json.plainFields, hseq, hbody]

/-- **A message is read from its JSON as it was.** -/
theorem Sendable.decoder_toJson (h : m.Sendable) :
    decoder .ofText (Draft.ofJson m.toJson) = .ok m := by
  have hothers := Parts.read_ofFields ⟨126, .malformed⟩ h.nesting
    ⟨some m.seq, some m.kind, []⟩
  have hseq : Decoder.nat ⟨126, .malformed⟩ (.int m.seq) = .ok m.seq :=
    if_pos ⟨Int.natCast_nonneg _, Int.ofNat_le.mpr h.seq⟩
  -- number and kind come first, and whatever follows them is the content
  have hparts : Parts.read ⟨126, .malformed⟩ {} ((some "seq", .int m.seq) ::
      (some "type", .string m.kind) :: Draft.ofFields m.content.fields) =
        .ok ⟨some m.seq, some m.kind, m.content.fields⟩ := by
    rw [Parts.read, if_pos rfl, hseq]
    exact hothers
  have hcontent := Content.ofFields_fields h.requestSeq fun j hj =>
    ⟨(h.payload j hj).1, (h.payload j hj).2.2.1⟩
  unfold decoder toJson
  rw [Draft.ofJson]
  change (Parts.read ⟨126, .malformed⟩ {} ((some "seq", .int m.seq) ::
    (some "type", .string m.kind) :: Draft.ofFields m.content.fields)).bind _ = _
  rw [hparts]
  change (Content.ofFields m.content.fields).bind
    (fun c => .ok (⟨m.seq, m.kind, c⟩ : Message)) = _
  rw [hcontent]
  rfl

/-- **A message is read from its text as it was.** -/
theorem Sendable.ofBody_compact (h : m.Sendable) :
    ofBody (Text.bytes m.toJson.compact) = .ok m := by
  -- the bytes of the text are read as its letters
  have hletters : Text.lettersOf ⟨(Text.bytes m.toJson.compact).toArray⟩ =
      m.toJson.write.map some := by
    have htext : String.fromUTF8? ⟨(Text.bytes m.toJson.compact).toArray⟩ = some m.toJson.compact :=
      Text.ofBytes?_bytes _
    unfold Text.lettersOf
    rw [htext]
    dsimp only
    rw [Text.letters, Json.compact, String.toList_ofList]
  unfold ofBody Json.Document.decode
  rw [hletters, Json.Document.ofLetters_write h.isPlain_toJson]
  dsimp only
  rw [h.decoder_toJson]
  rfl

end Message

end BytecodeDebugger
