import BytecodeDebugger.Engine.Basic

/-!
# The engine as a hook

The gate in front of every instruction. An instruction is held up when stepping or an armed
breakpoint asks for it, unless its frame already stopped on this line and has run nothing but this
line since, its opcode never stops, or a coroutine is just being resumed. What is held up is parked
and a task is put off that announces the stop: clients hear of it only when the interpreter has
parked the callers too.
-/

namespace BytecodeDebugger.Engine

/-- Whether something asks for a stop at this instruction. -/
def wantsStop (e : Engine) (site : Site) : Bool :=
  e.stepping.breaksIn site.frame || e.breakpoints.stopsAt site.file site.line

/-- The line of an instruction. -/
def locationOf (site : Site) : SourceLocation := ⟨site.file, site.line⟩

/-- Whether the frame's last stop was on this line and still counts. -/
def isBarred (e : Engine) (site : Site) : Bool :=
  e.barriers.get? site.frame = some (locationOf site)

/-- **Whether an instruction is held up.** -/
def shouldSuspend (e : Engine) (site : Site) : Bool :=
  e.wantsStop site && e.status = .running && e.parked.isEmpty && !e.isBarred site
    && !e.config.excludedOpcodes.contains site.opcode && !site.coroutineResuming

/-- Parks an entry inside all that will follow it. -/
def park (e : Engine) (entry : Resumable) : Engine := { e with parked := entry :: e.parked }

/-- Starts a stop. -/
def suspendAt (e : Engine) (site : Site) : Engine :=
  let location := locationOf site
  -- parked before the status changes, so that the request counts the frame
  let e := e.park (.call site.frame)
  let e := { e with
    barriers := e.barriers.insert site.frame location
    epoch := e.epoch + 1 }
  let e := e.transition .suspending { location := some location }
  -- due at once, but done only when someone asks for what is due
  { e with timers := e.timers.schedule e.clock (.enterSuspended e.epoch location) }

/-- Lets an instruction run. On another line the frame's last stop counts no more. -/
def passBy (e : Engine) (site : Site) : Engine :=
  let moved : Bool := match e.barriers.get? site.frame with
    | some location => location ≠ locationOf site
    | none => false
  { e with
    barriers := if moved then e.barriers.erase site.frame else e.barriers
    lastExecuted := some (locationOf site) }

/-- Takes note of an instruction that ran: a return ends the frame, and some instructions end a step
whose target the frame is. -/
def instructionDone (e : Engine) (frame : FrameId) (opcode : UInt8) : Engine :=
  { e with
    barriers := if opcode = Op.returnCode then e.barriers.erase frame else e.barriers
    stepping :=
      if e.config.stepClearingOpcodes.contains opcode then e.stepping.clearTarget frame
      else e.stepping }

/-- Hands back the outermost parked entry while a call chain is being rebuilt. With the last one the
program runs again. -/
def takeResume (e : Engine) : Option Resumable × Engine :=
  if e.status = .resuming then
    match e.parked with
    | [] => (none, e)
    | entry :: inner =>
      -- the program counts as running before its innermost frame goes on
      let e := { e with parked := inner }
      (some entry, if inner.isEmpty then e.transition .running {} else e)
  else (none, e)

/-- Makes an error at the line executed last. -/
def raise (e : Engine) (message : String) : RuntimeError × Engine :=
  let (error, errors) := e.errors.create message e.lastExecuted
  (error, { e with errors })

/-- **The engine's answers to an interpreter.** -/
def reply : Attended.Hook Engine
  | .before site, e =>
    -- the counter goes back, so that the instruction runs when the frame is entered again
    if e.shouldSuspend site then (Decision.suspend (site.nextPc - 1), e.suspendAt site)
    else (Decision.proceed, e.passBy site)
  | .after frame _ opcode none, e => ((none : Option RuntimeError), e.instructionDone frame opcode)
  | .after frame pc _ (some error), e => (some (error.tag ⟨frame, pc⟩), e)
  | .park entry, e => ((), e.park entry)
  | .takeResume, e => e.takeResume
  | .isResuming, e => (decide (e.status = .resuming), e)
  | .raise message, e => e.raise message

end BytecodeDebugger.Engine
