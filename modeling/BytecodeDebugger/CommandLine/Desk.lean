import BytecodeDebugger.CommandLine.Run
import BytecodeDebugger.Disk

/-!
# The command line in memory

Surroundings that are a value: a disk, an input given as a whole, a clock that moves on with every
reading and jumps over sleep, and the texts printed. What a run does to them is a function of what
they were.
-/

namespace BytecodeDebugger

/-- **Surroundings in memory.** -/
structure Desk where
  disk : Disk
  /-- the input not read as lines yet -/
  input : List UInt8
  /-- the messages of the input not received yet -/
  inbox : List Message
  clock : Time := 0
  /-- the texts printed, in order -/
  printed : Array String := #[]

namespace Desk

/-- The desk with an input. -/
def ofInput (disk : Disk) (input : List UInt8) : Desk :=
  { disk, input, inbox := Message.readAll input }

/-- Runs on a desk, which may stop without a result. -/
abbrev Run : Type → Type := ExceptT Stop (StateM Desk)

/-- Writes a file if that is possible. -/
def writeFile (path text : String) (d : Desk) : Desk :=
  match d.disk.write path text with
  | .ok disk => { d with disk }
  | .error _ => d

/-- **A desk as surroundings.** Messages are all there at once, so that none is waited for. -/
def world : World Run where
  readFile path := return (← get).disk.read path
  writeFile path text := modify (writeFile path text)
  print text := modify fun d => { d with printed := d.printed.push text }
  complain _ := pure ()
  now := modifyGet fun d => (d.clock, { d with clock := d.clock + 1 })
  sleepUntil time := modify fun d => { d with clock := max d.clock time }
  nextLine := modifyGet fun d =>
    (InputLine.ofBytes (Text.takeLine d.input).1, { d with input := (Text.takeLine d.input).2 })
  nextMessage _ := modifyGet fun d =>
    match d.inbox with
    | [] => (.closed, d)
    | message :: inbox => (.message message, { d with inbox })

/-- **Runs the command line on a desk**: how it exits, and what it leaves. -/
def run (budget : Nat) (args : List String) (d : Desk) : CommandLine.Exit × Desk :=
  match (CommandLine.run world budget args).run.run d with
  | (.ok exit, d) => (exit, d)
  | (.error reason, d) => (.ofStop reason, d)

end Desk

end BytecodeDebugger
