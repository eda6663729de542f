import BytecodeDebugger.CommandLine.Run

/-!
# The program

The command line in the surroundings of the system.
-/

namespace BytecodeDebugger.Terminal

/-- Runs in the system, which may stop without a result. -/
abbrev Run : Type → Type := ExceptT Stop IO

/-- The fault that an error of the system is. The code of a wrong type is given with either sign. -/
def faultOf : IO.Error → FileFault
  | .noFileOrDirectory .. => .notFound
  | .inappropriateType _ code _ =>
    if code = 21 || -code = 21 then .isDirectory else .notDirectory
  | e => .other (toString e)

/-- Reads a file. -/
def readFile (path : String) : IO (Except FileFault String) := do
  try
    let bytes ← IO.FS.readBinFile path
    match String.fromUTF8? bytes with
    | some text => return .ok text
    | none => return .error .notText
  catch e => return .error (faultOf e)

/-- Writes a file if that is possible. -/
def writeFile (path text : String) : IO Unit := do
  try IO.FS.writeFile path text catch _ => return

/-- Prints a text at once. -/
def print (text : String) : IO Unit := do
  let out ← IO.getStdout
  out.putStr text
  out.flush

/-- Sleeps until a time. -/
def sleepUntil (time : Time) : IO Unit := do
  let now ← IO.monoNanosNow
  if now < time then IO.sleep ((time - now) / millisecond + 1).toUInt32

/-- The next line of the input with its line feed. -/
partial def takeLine (line : Array UInt8) : IO (List UInt8) := do
  let bytes ← (← IO.getStdin).read 1
  match bytes.data[0]? with
  | none => return line.toList
  | some b => if b = 10 then return (line.push b).toList else takeLine (line.push b)

/-- At most `n` bytes of the input. -/
partial def take (n : Nat) (taken : ByteArray) : IO ByteArray := do
  if n ≤ taken.size then return taken
  let bytes ← (← IO.getStdin).read (n - taken.size).toUSize
  if bytes.isEmpty then return taken else take n (taken ++ bytes)

/-- The next message of the input, after header lines that gave a length or none. -/
partial def takeMessage (length? : Option Nat) : IO (Option Message) := do
  let line ← takeLine #[]
  if line.isEmpty then return none
  match Header.ofBytes line, length? with
  | .error _, _ => takeMessage none
  | .ok (.length n), _ => takeMessage (some n)
  | .ok .other, _ => takeMessage length?
  | .ok .blank, none => takeMessage none
  | .ok .blank, some n =>
    -- a body for which there is no room is not waited for
    if Text.maxLength < n then return none
    let body ← take n .empty
    match Message.readBody n body.data.toList with
    | .ended => return none
    | .overflow => return none
    | .message message _ => return some message
    | .fault f _ => if f.endsStream then return none else takeMessage none

/-- Waits for a message that is being read, at most until a time if one is given. -/
partial def await (reading : Task (Except IO.Error (Option Message))) (deadline? : Option Time) :
    IO Arrival := do
  if ← IO.hasFinished reading then
    match reading.get with
    | .ok (some message) => return .message message
    | _ => return .closed
  else
    match deadline? with
    | some deadline => if deadline ≤ (← IO.monoNanosNow) then return .quiet
    | none => pure ()
    IO.sleep 1
    await reading deadline?

/-- Waits for the next message; a message half read stays in `pending`. -/
def nextMessage (pending : IO.Ref (Option (Task (Except IO.Error (Option Message)))))
    (deadline? : Option Time) : IO Arrival := do
  let reading ← match ← pending.get with
    | some reading => pure reading
    | none => IO.asTask (takeMessage none) Task.Priority.dedicated
  match ← await reading deadline? with
  | .quiet => do
    pending.set (some reading)
    return .quiet
  | arrival => do
    pending.set none
    return arrival

/-- The surroundings of the system. -/
def world (pending : IO.Ref (Option (Task (Except IO.Error (Option Message))))) : World Run where
  readFile path := readFile path
  writeFile path text := writeFile path text
  print text := print text
  complain text := IO.eprintln text
  now := IO.monoNanosNow
  sleepUntil time := sleepUntil time
  nextLine := return InputLine.ofBytes (← takeLine #[])
  nextMessage deadline? := nextMessage pending deadline?

/-- Bounds every loop; no run comes near it. -/
def budget : Nat := 1000000000000000000

end BytecodeDebugger.Terminal

open BytecodeDebugger in
/-- Runs the program. -/
def main (args : List String) : IO UInt32 := do
  let pending ← IO.mkRef none
  match ← (CommandLine.run (Terminal.world pending) Terminal.budget args).run with
  | .ok exit => return exit.code.toUInt32
  | .error reason =>
    IO.eprintln "the program did not end"
    return (CommandLine.Exit.ofStop reason).code.toUInt32
