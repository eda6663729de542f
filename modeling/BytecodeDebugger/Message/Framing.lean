import BytecodeDebugger.Json.Writer
import BytecodeDebugger.Message.Basic
import BytecodeDebugger.Text.Blank
import BytecodeDebugger.Text.Bytes

/-!
# Framing

A message travels as a frame: header lines, one of which gives the length of the body in bytes, an
empty line, and the body, the message as JSON. Among several lengths the last counts, other header
lines mean nothing, and empty lines in front of the first length are passed over.

Reading takes a frame from the front of a stream. Whatever is wrong with it, something is taken, so
that a reader who goes on after a fault comes to the end of the stream (`rest_length_lt`). Only a length
for which there is no room in memory is more than a fault: the reader itself comes to its end.
-/

namespace BytecodeDebugger

open Text (CountFault)

/-- Why bytes give no message. -/
inductive FrameFault where
  /-- a header line is no text -/
  | header
  | length (fault : CountFault)
  /-- the stream ends inside the body -/
  | cut
  | body (error : JsonError)
  deriving DecidableEq, Repr

/-- The wording of a fault; only that of a length has one of its own. -/
def FrameFault.message? : FrameFault → Option String
  | .length fault => some ("bad Content-Length: " ++ fault.message)
  | _ => none

/-- Whether a fault is taken for the end of the stream. -/
def FrameFault.endsStream : FrameFault → Bool
  | .cut => true
  | .body .early => true
  | _ => false

/-- What a header line says. -/
inductive Header where
  | blank
  | length (n : Nat)
  | other
  deriving DecidableEq, Repr

namespace Header

/-- What stands in front of a length. -/
def lengthMark : List Char := "Content-Length:".toList

/-- Whether a character ends a line. -/
def endsLine (c : Char) : Bool := c = '\r' || c = '\n'

/-- A line without the characters at its end that end lines. -/
def body (line : List Char) : List Char := (line.reverse.dropWhile endsLine).reverse

/-- Reads a header line, given as text. -/
def ofLine (line : List Char) : Except CountFault Header :=
  let text := body line
  if text.isEmpty then .ok .blank
  else if lengthMark.isPrefixOf text then
    let count := Text.strip Text.isBlank (text.drop lengthMark.length)
    (Text.readCount Text.maxWord count).map .length
  else .ok .other

/-- Reads a header line. -/
def ofBytes (line : List UInt8) : Except FrameFault Header :=
  match Text.ofBytes? line with
  | none => .error .header
  | some text => (ofLine text.toList).mapError .length

end Header

/-- What taking a frame from a stream gives. A frame that is no message is gone all the same. -/
inductive Reading where
  | ended
  | message (m : Message) (rest : List UInt8)
  | fault (f : FrameFault) (rest : List UInt8)
  /-- the body would be longer than `Text.maxLength`, and reading comes to no result -/
  | overflow

/-- The stream behind what was taken. -/
def Reading.rest? : Reading → Option (List UInt8)
  | .ended => none
  | .message _ rest => some rest
  | .fault _ rest => some rest
  | .overflow => none

namespace Message

/-- Reads the body of a frame. -/
def ofBody (bytes : List UInt8) : Except JsonError Message :=
  (Json.Document.ofLetters (Text.lettersOf ⟨bytes.toArray⟩)).decode decoder

/-- Takes a body of `n` bytes. Room for it is made before any of it is read. -/
def readBody (n : Nat) (bytes : List UInt8) : Reading :=
  if Text.maxLength < n then .overflow
  else if n ≤ bytes.length then
    -- the body is gone, whatever it holds
    match ofBody (bytes.take n) with
    | .ok m => .message m (bytes.drop n)
    | .error e => .fault (.body e) (bytes.drop n)
  else .fault .cut []

/-- Takes a frame, after header lines that gave a length or none. -/
def readFrom (length? : Option Nat) : List UInt8 → Reading
  | [] => .ended
  | b :: bs =>
    -- a line is taken whole, whatever it says
    let rest := (Text.takeLine (b :: bs)).2
    match Header.ofBytes (Text.takeLine (b :: bs)).1 with
    | .error f => .fault f rest
    | .ok .blank =>
      match length? with
      | none => readFrom none rest
      | some n => readBody n rest
    -- a later length counts instead
    | .ok (.length n) => readFrom (some n) rest
    | .ok .other => readFrom length? rest
termination_by bytes => bytes.length
decreasing_by all_goals exact Text.takeLine_length_lt b bs

/-- **Takes a frame from a stream.** -/
def read (bytes : List UInt8) : Reading := readFrom none bytes

theorem readBody_rest_length_le {n : Nat} {bytes rest : List UInt8}
    (h : (readBody n bytes).rest? = some rest) : rest.length ≤ bytes.length := by
  unfold readBody at h
  split at h
  · cases h
  · split at h
    · split at h <;> (cases h; simp)
    · cases h; simp

theorem readFrom_rest_length_lt {length? : Option Nat} {bytes rest : List UInt8}
    (h : (readFrom length? bytes).rest? = some rest) : rest.length < bytes.length := by
  fun_induction readFrom length? bytes with
  | case1 => cases h
  | case2 _ b bs => exact Option.some.inj h ▸ Text.takeLine_length_lt b bs
  | case3 b bs _ _ ih => exact Nat.lt_trans (ih h) (Text.takeLine_length_lt b bs)
  | case4 b bs _ n =>
    exact Nat.lt_of_le_of_lt (readBody_rest_length_le h) (Text.takeLine_length_lt b bs)
  | case5 _ b bs _ n _ ih => exact Nat.lt_trans (ih h) (Text.takeLine_length_lt b bs)
  | case6 _ b bs _ _ ih => exact Nat.lt_trans (ih h) (Text.takeLine_length_lt b bs)

/-- **Every reading takes something.** -/
theorem rest_length_lt {bytes rest : List UInt8} (h : (read bytes).rest? = some rest) :
    rest.length < bytes.length :=
  readFrom_rest_length_lt h

/-- **The messages of a stream.** Frames that are no messages are passed over, up to one that is
taken for the end of the stream or is too long to be read. -/
def readAll (bytes : List UInt8) : List Message :=
  match _h : read bytes with
  | .ended => []
  | .message m rest => m :: readAll rest
  | .fault f rest => if f.endsStream then [] else readAll rest
  | .overflow => []
termination_by bytes.length
decreasing_by all_goals exact rest_length_lt (by rw [_h]; rfl)

/-- A message as the text of its frame. -/
def framed (m : Message) : String :=
  let text := m.toJson.compact
  "Content-Length: " ++ toString text.utf8ByteSize ++ "\r\n\r\n" ++ text

end Message

end BytecodeDebugger
