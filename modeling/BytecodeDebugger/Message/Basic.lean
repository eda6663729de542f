import BytecodeDebugger.Json.Decode

/-!
# Messages

What a client and the debugger tell each other: a message has a number, a kind, and a content, whose
fields stand beside those of the message. The content is what its fields are enough for, tried in a
fixed order: a response, then a notice, then a request. The kind is for the reader; it decides
nothing.
-/

namespace BytecodeDebugger

/-- The answer to a request. -/
structure Response where
  requestSeq : Nat := 0
  success : Bool := false
  command : String := ""
  message : Option String := none
  body : Option Json := none

/-- The announcement of an event. -/
structure Notice where
  event : String := ""
  body : Option Json := none

/-- What a client asks for. -/
structure Request where
  command : String := ""
  arguments : Option Json := none

/-- What a message says. -/
inductive Content where
  | response (r : Response)
  | notice (n : Notice)
  | request (r : Request)

/-- **A message.** -/
structure Message where
  seq : Nat
  kind : String
  content : Content

open Json (Decoder Draft)
open Json.Decoder (Field)

/-- Reads the value that goes with a content, its fields in key order; null is none. -/
def Content.payload : Decoder (Option Json) :=
  Decoder.option fun scope d => (Decoder.json scope d).map Json.canonical

/-- Reads a response. -/
def Response.decoder : Decoder Response :=
  Decoder.record {} [
    Field.needed "request_seq" Decoder.nat fun x r => { r with requestSeq := x },
    Field.needed "success" Decoder.bool fun x r => { r with success := x },
    Field.needed "command" Decoder.string fun x r => { r with command := x },
    Field.optional "message" (Decoder.option Decoder.string) fun x r => { r with message := x },
    Field.optional "body" Content.payload fun x r => { r with body := x }]

/-- Reads a notice. -/
def Notice.decoder : Decoder Notice :=
  Decoder.record {} [
    Field.needed "event" Decoder.string fun x r => { r with event := x },
    Field.optional "body" Content.payload fun x r => { r with body := x }]

/-- Reads a request. -/
def Request.decoder : Decoder Request :=
  Decoder.record {} [
    Field.needed "command" Decoder.string fun x r => { r with command := x },
    Field.optional "arguments" Content.payload fun x r => { r with arguments := x }]

namespace Content

/-- The content that fields are enough for. -/
def ofFields (fields : List (String × Json)) : Except JsonError Content :=
  let read {α : Type} (decoder : Decoder α) : Option α :=
    (Json.decodeValue decoder (.object fields)).toOption
  -- a response may hold what a notice or a request needs, hence the order
  match read Response.decoder, read Notice.decoder, read Request.decoder with
  | some r, _, _ => .ok (.response r)
  | none, some n, _ => .ok (.notice n)
  | none, none, some r => .ok (.request r)
  | none, none, none => .error (.shape none)

/-- The fields of a content. -/
def fields : Content → List (String × Json)
  | .response r =>
    [("request_seq", Json.nat r.requestSeq), ("success", .bool r.success),
     ("command", .string r.command), ("message", Json.option .string r.message),
     ("body", Json.option id r.body)]
  | .notice n => [("event", .string n.event), ("body", Json.option id n.body)]
  | .request r => [("command", .string r.command), ("arguments", Json.option id r.arguments)]

end Content

namespace Message

/-- How far a message is read: its own fields, and the others in the order met. -/
structure Parts where
  seq : Option Nat := none
  kind : Option String := none
  others : List (String × Json) := []

/-- Reads the fields of a message. Its own may stand only once. -/
def Parts.read (scope : Json.Scope) (p : Parts) :
    List (Option String × Draft) → Except JsonError Parts
  | [] => .ok p
  | (none, _) :: _ => .error .malformed
  | (some key, d) :: fs =>
    if key = "seq" then
      if p.seq.isSome then .error (.shape none)
      else do
        let seq ← Decoder.nat scope d
        Parts.read scope { p with seq := some seq } fs
    else if key = "type" then
      if p.kind.isSome then .error (.shape none)
      else do
        let kind ← Decoder.string scope d
        Parts.read scope { p with kind := some kind } fs
    else do
      -- kept as it stands, since the content is only judged when all fields are there
      let j ← Decoder.json scope d
      Parts.read scope { p with others := p.others ++ [(key, j)] } fs

/-- Reads a message, which is always an object. -/
def decoder : Decoder Message
  | scope, .object fs stop => do
    let scope ← scope.enter
    let p ← Parts.read scope {} fs
    Json.checkFault stop
    match p.seq, p.kind with
    | some seq, some kind => return ⟨seq, kind, ← Content.ofFields p.others⟩
    | _, _ => .error (.shape none)
  | _, d => .error d.mismatch

/-- A message as JSON. -/
def toJson (m : Message) : Json :=
  .object ([("seq", Json.nat m.seq), ("type", .string m.kind)] ++ m.content.fields)

end Message

end BytecodeDebugger
