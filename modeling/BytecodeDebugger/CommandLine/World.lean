import BytecodeDebugger.FileFault
import BytecodeDebugger.Message.Framing
import BytecodeDebugger.Text.Lines
import BytecodeDebugger.Timers

/-!
# The surroundings of the command line

Files, a clock, lines or messages from outside, and places to write to. The command line is written
over any such surroundings: the system's, or those held in memory.
-/

namespace BytecodeDebugger

/-- A line from a user. -/
inductive InputLine where
  | text (line : String)
  | garbled
  | ended
  deriving DecidableEq, Repr

/-- A line as typed: without what ends it. -/
def InputLine.ofBytes (line : List UInt8) : InputLine :=
  if line.isEmpty then .ended
  else match Text.ofBytes? line with
    | none => .garbled
    | some s =>
      let cs := s.toList
      .text (String.ofList
        (if cs.getLast? = some '\n' then Text.withoutReturn cs.dropLast else cs))

/-- What came of waiting for a client. -/
inductive Arrival where
  | message (m : Message)
  | quiet
  | closed

/-- **Surroundings**, reached by effects of `m`. -/
structure World (m : Type → Type) where
  readFile : String → m (Except FileFault String)
  /-- a file that cannot be written stays as it is -/
  writeFile : String → String → m Unit
  print : String → m Unit
  complain : String → m Unit
  /-- the time, later at each reading -/
  now : m Time
  sleepUntil : Time → m Unit
  nextLine : m InputLine
  /-- waits for a message, at most until a time if one is given -/
  nextMessage : Option Time → m Arrival

/-- Prints a line. -/
def World.printLine {m : Type → Type} (w : World m) (line : String) : m Unit :=
  w.print (line ++ "\n")

end BytecodeDebugger
