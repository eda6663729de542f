import BytecodeDebugger.Chunk.Basic
import BytecodeDebugger.FileFault
import BytecodeDebugger.Timers

/-!
# Configuration

What can be set for a debugging session. Every field has a default, so that an empty object is a
configuration.
-/

namespace BytecodeDebugger

/-- **The settings of a session.** -/
structure Config where
  /-- milliseconds from a stop to the next automatic step -/
  autoStepDelayMs : Nat := 500
  /-- whether breakpoints are armed when no earlier session says so -/
  stopAtBreakpoints : Bool := true
  /-- instructions that never stop: declarations of closures -/
  excludedOpcodes : List UInt8 := [Op.closeCode, Op.closureCode]
  /-- instructions after which a step target means nothing -/
  stepClearingOpcodes : List UInt8 := [Op.returnCode, Op.closeCode]
  /-- globals that are not shown -/
  hiddenGlobals : List String := ["_G"]
  /-- the key under which the machine keeps its own data, shown neither among globals nor in
  tables -/
  bookkeepingKey : String := "__vm"
  deriving DecidableEq, Repr

namespace Config

open Json (Decoder)
open Json.Decoder (Field)

/-- Reads an opcode. -/
def opcode : Decoder UInt8 := fun scope d =>
  (Decoder.int 0 255 scope d).map fun n => n.toNat.toUInt8

/-- Reads a configuration. -/
def decoder : Decoder Config :=
  Decoder.record {} [
    Field.optional "autoStepDelayMs" Decoder.nat fun x r => { r with autoStepDelayMs := x },
    Field.optional "stopAtBreakpoints" Decoder.bool fun x r => { r with stopAtBreakpoints := x },
    Field.optional "excludedOpcodes" (Decoder.list opcode)
      fun x r => { r with excludedOpcodes := x },
    Field.optional "stepClearingOpcodes" (Decoder.list opcode)
      fun x r => { r with stepClearingOpcodes := x },
    Field.optional "hiddenGlobals" (Decoder.list Decoder.string)
      fun x r => { r with hiddenGlobals := x },
    Field.optional "bookkeepingKey" Decoder.string fun x r => { r with bookkeepingKey := x }]

/-- The wording of a failure to load a configuration. -/
def loadMessage : LoadError → String
  | .unreadable path fault => "cannot read config " ++ path ++ ": " ++ fault.message
  | .json error => "malformed JSON: " ++ error.message

/-- The time from a stop to the next automatic step. -/
def autoStepDelay (c : Config) : Time := c.autoStepDelayMs * millisecond

/-- Whether a global is not shown. -/
def hides (c : Config) (name : String) : Bool :=
  name = c.bookkeepingKey || c.hiddenGlobals.contains name

end Config

end BytecodeDebugger
