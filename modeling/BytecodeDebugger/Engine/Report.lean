import BytecodeDebugger.Engine.Basic

/-!
# Reporting errors

An error that escaped from the program is given a record if it has none, its frames are forgotten,
and it is logged and announced. Reports of errors come typed or as text; a report of an error that
is logged already has no effect.
-/

namespace BytecodeDebugger.Engine

/-- No frame of a failed run is left: neither a step target nor a barrier can matter any more. -/
def forgetFrames (e : Engine) : Engine :=
  { e with stepping := e.stepping.dropTarget, barriers := .empty }

/-- Logs and announces the error of an index the first time. -/
def announce (e : Engine) (index : ErrorIndex) : Option ErrorRecord × Engine :=
  match e.errors.correlate index with
  | (some record, errors) => (some record, { e with errors }.emit (.error record))
  | (none, errors) => (none, { e with errors })

/-- Reports an error that nothing caught. -/
def reportUncaught (e : Engine) (error : RuntimeError) : Option ErrorRecord × Engine :=
  match error.index with
  | some index => e.announce index
  | none =>
    let (adopted, errors) := e.errors.adopt error e.lastExecuted
    match adopted.index with
    | some index => { e with errors }.announce index
    | none => (none, { e with errors })

/-- Reports an error of which only the text is left. -/
def reportText (e : Engine) (message : String) : Option ErrorRecord × Engine :=
  match ErrorIndex.ofTagged message with
  | some index => e.announce index
  | none => (none, e)

/-- Makes an error of the program out of what escaped, with a record of this session. -/
def normalize (e : Engine) : ExecError → RuntimeError × Engine
  | .runtime error =>
    let (error, errors) := e.errors.adopt error e.lastExecuted
    (error, { e with errors })
  | .host error =>
    let (error, errors) := e.errors.wrapHost error e.lastExecuted
    (error, { e with errors })

/-- **Deals with an error that escaped.** An error that carries no frame gets the one it came from,
if that is known. -/
def fail (e : Engine) (error : ExecError) (origin : Option StackEntry) : RuntimeError × Engine :=
  let (error, e) := e.normalize error
  let error := match origin with
    | some entry => if error.stack.isEmpty then error.tag entry else error
    | none => error
  -- the frames are gone also when the error was reported before
  (error, (e.forgetFrames.reportUncaught error).2)

end BytecodeDebugger.Engine
