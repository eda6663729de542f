import BytecodeDebugger.Chunk.Reader
import BytecodeDebugger.FileFault
import BytecodeDebugger.Machine.Run
import BytecodeDebugger.Session.Basic

/-!
# Launching a program

A program is a compiled chunk together with its source, both read from files. Launching one shows
its source to the clients and calls its main function under the debugger, with a stop before the
first instruction if that is asked for.
-/

namespace BytecodeDebugger

/-- The wording of a failure to load a chunk. -/
def Chunk.loadMessage : LoadError → String
  | .unreadable path fault => "cannot read " ++ path ++ ": " ++ fault.message
  | .json error => "invalid chunk: " ++ error.message

/-- The wording of a failure to launch. -/
def launchMessage (e : LoadError) : String := "failed to load program: " ++ Chunk.loadMessage e

/-- The name under which a program's file is known: slashes part its directories. -/
def fileId (path : String) : String :=
  String.ofList (path.toList.map fun c => if c = '\\' then '/' else c)

/-- **A program ready to be launched.** -/
structure Program where
  /-- the name under which its file is known -/
  file : String
  chunk : Chunk
  /-- the source, or why there is none -/
  source : Except String String

/-- Loads a program from its file; a source that cannot be read is no failure. -/
def Program.load {m : Type → Type} [Monad m] (read : String → m (Except FileFault String))
    (path : String) : m (Except LoadError Program) := do
  match loadFile Chunk.decoder path (← read path) with
  | .error e => return .error e
  | .ok chunk =>
    let source ← read (SourcePath.resolve (fileId path) chunk.sourcePath)
    return .ok ⟨fileId path, chunk, source.mapError FileFault.message⟩

/-- **Launches a program.** -/
def Session.launch (fuel : Nat) (program : Program) (stopOnEntry : Bool) (s : Session Machine) :
    Except Stop (Execution × Session Machine) :=
  let engine :=
    (s.engine.fileLoaded program.file program.chunk.sourcePath fun _ => program.source).2
  let (main, vm) := s.vm.load program.chunk program.file
  let engine := if stopOnEntry then engine.pause else engine
  Session.execute (Machine.interpreter fuel) ⟨engine, vm⟩ (.function main) []

end BytecodeDebugger
