/-!
# JSON texts as far as they can be read

A reader that looks for one particular shape meets faults of two kinds, faults of the text and
faults of the shape, and reports whichever comes first. A `Draft` therefore keeps what was read up
to the first fault of the text, with the fault in its place; a decoder that walks a draft in order
meets every fault where a reader of the text would.

Some faults count only when the value is wanted: a value that is passed over may be a number beyond
all floats or a text with an escape that stands for no character.
-/

namespace BytecodeDebugger.Json

/-- What is wrong with a text: it ends too early, or it is malformed. -/
inductive Fault where
  | early
  | malformed
  deriving DecidableEq, Repr

/-- **A JSON text up to its first fault.** -/
inductive Draft where
  | null
  | bool (b : Bool)
  | int (n : Int)
  | float (x : Float)
  /-- a number beyond all floats -/
  | overflow
  /-- the text ends inside a number -/
  | cutNumber
  | string (s : String)
  /-- a text with a part that stands for no character, and the fault that ended it, if any -/
  | mangled (fault : Option Fault)
  /-- `fault` stands where the next comma or the closing bracket should -/
  | array (items : List Draft) (fault : Option Fault)
  /-- a field without a key has one that stands for no text -/
  | object (fields : List (Option String × Draft)) (fault : Option Fault)
  | fault (f : Fault)
  deriving Inhabited

namespace Draft

mutual

/-- The first fault met by passing over a value. -/
def passFault : Draft → Option Fault
  | .cutNumber => some .malformed
  | .mangled stop => stop
  | .fault f => some f
  | .array items stop => (passItems items).or stop
  | .object fields stop => (passFields fields).or stop
  | _ => none

/-- The first fault among items. -/
def passItems : List Draft → Option Fault
  | [] => none
  | d :: ds => d.passFault.or (passItems ds)

/-- The first fault among the values of fields. -/
def passFields : List (Option String × Draft) → Option Fault
  | [] => none
  | (_, d) :: fs => d.passFault.or (passFields fs)

end

end Draft

end BytecodeDebugger.Json
