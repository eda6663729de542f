import BytecodeDebugger.Engine.Reply
import BytecodeDebugger.Engine.Report

/-!
# Debugging sessions

A session is an engine and the state of the interpreter it drives. The operations here are those
that may run code: host calls, the commands that let a stopped program go on, and the tasks that
were put off.

Host calls that come while the program stands still wait until it runs again and are then made in
the order in which they came. Every operation is total; it ends without a result only where the
interpreter does, or when its own budget of tasks is used up.
-/

namespace BytecodeDebugger

variable {σ : Type}

/-- **An engine and the interpreter it drives.** -/
structure Session (σ : Type) where
  engine : Engine
  vm : σ

/-- What becomes of a host call. -/
inductive Execution where
  | completed (values : List Value)
  | suspended
  /-- the program stands still; the call is made when it runs again -/
  | queued
  | failed (error : RuntimeError)

namespace Session

/-- Changes the engine. -/
def setEngine (s : Session σ) (e : Engine) : Session σ := { s with engine := e }

/-- Runs the interpreter with the engine as its hook. -/
def attend (s : Session σ) {α : Type} (entry : σ → Attended (α × σ)) :
    Except Stop (α × Session σ) :=
  match (entry s.vm).run Engine.reply s.engine with
  | .error reason => .error reason
  | .ok ((result, vm), engine) => .ok (result, ⟨engine, vm⟩)

/-- Makes waiting calls, given in order, as long as the program runs. -/
def drainCalls (I : Interpreter σ) (s : Session σ) : List DeferredCall → Except Stop (Session σ)
  | [] => .ok s
  | call :: calls =>
    if s.engine.status = .running then do
      -- the call leaves the queue before it is made, so that it is made once whatever comes of it
      let s := s.setEngine { s.engine with waiting := calls }
      let (result, s) ← s.attend (I.call call.function call.args)
      match result with
      | .ok _ => s.drainCalls I calls
      | .error error => (s.setEngine (s.engine.fail error none).2).drainCalls I calls
    else .ok s

/-- Makes the waiting calls as long as the program runs. -/
def drain (I : Interpreter σ) (s : Session σ) : Except Stop (Session σ) :=
  s.drainCalls I s.engine.waiting

end Session

namespace Engine

/-- Drops what is still parked, and lets the program count as running. -/
def abandonSuspension (e : Engine) : Engine :=
  let e := if e.parked.isEmpty then e else { e with parked := [] }.forgetFrames
  if e.status = .running then e else e.transition .running {}

/-- Takes the outermost parked entry; with the last one the program runs again. -/
def popOutermost (e : Engine) : Option (Resumable × Engine) :=
  match e.parked with
  | [] => none
  | entry :: inner =>
    let e := { e with parked := inner }
    some (entry, if inner.isEmpty then e.transition .running {} else e)

/-- Deals with the end of a run that entered parked frames again. -/
def afterResuming (e : Engine) (origin : Option StackEntry) : RunResult → Engine
  | .ok .suspended => e
  | .ok (.completed _) => if e.status = .resuming then e.abandonSuspension else e
  | .error error => (e.fail error origin).2.abandonSuspension

end Engine

namespace Session

/-- **Lets the program go on**: the outermost parked entry is entered again, and the interpreter
takes the others back through the hook. Calls that wait are made afterwards, unless the program
stopped again. -/
def resumeThread (I : Interpreter σ) (s : Session σ) : Except Stop (Session σ) := do
  let e := s.engine.transition .resuming {}
  match e.popOutermost with
  | none => (s.setEngine (e.transition .running {})).drain I
  | some (entry, e) =>
    -- looked up before the frame goes on, since a failure drops it
    let origin := entry.frame?.bind fun frame =>
      (I.frame? s.vm frame).map fun view => (⟨frame, view.pc⟩ : StackEntry)
    let (result, s) ← (s.setEngine e).attend (I.reenter entry)
    (s.setEngine (s.engine.afterResuming origin result)).drain I

/-- Gives a command that changes how the program is stepped. -/
def command (s : Session σ) (f : Stepping → Stepping) : Session σ :=
  let e := s.engine.beginCommand
  s.setEngine { e with stepping := f e.stepping }

/-- Goes on to the next instruction. -/
def stepIn (I : Interpreter σ) (s : Session σ) : Except Stop (Session σ) :=
  (s.command Stepping.stepIn).resumeThread I

/-- Goes on to the next instruction of the innermost frame. -/
def stepOver (I : Interpreter σ) (s : Session σ) : Except Stop (Session σ) :=
  (s.command fun stepping => stepping.stepOver s.engine.innermost?).resumeThread I

/-- Goes on without stepping. -/
def resume (I : Interpreter σ) (s : Session σ) : Except Stop (Session σ) := do
  let s ← (s.command Stepping.resume).resumeThread I
  return s.setEngine (s.engine.emit .resumed)

/-- Goes on to the next instruction of the calling frame, or without stepping when there is none. -/
def stepOut (I : Interpreter σ) (s : Session σ) : Except Stop (Session σ) :=
  match s.engine.enclosingCall? with
  | some caller => (s.command fun stepping => stepping.stepOut caller).resumeThread I
  | none => s.resume I

/-- Switches the automatic steps, and makes the first when they are on. -/
def autoStep (I : Interpreter σ) (s : Session σ) : Except Stop (Bool × Session σ) := do
  let s := s.command Stepping.toggleAuto
  if s.engine.stepping.auto then return (true, ← s.stepIn I) else return (false, s)

/-- **A call from the host.** -/
def execute (I : Interpreter σ) (s : Session σ) (function : Value) (args : List Value) :
    Except Stop (Execution × Session σ) :=
  if s.engine.status = .running then do
    let (result, s) ← s.attend (I.call function args)
    match result with
    | .ok (.completed values) => return (.completed values, s)
    | .ok .suspended => return (.suspended, s)
    | .error error =>
      let (error, e) := s.engine.fail error none
      return (.failed error, s.setEngine e)
  else
    let e := { s.engine with waiting := s.engine.waiting ++ [⟨function, args⟩] }
    .ok (.queued, s.setEngine e)

/-- Announces a stop, with a snapshot of the program, and schedules the next automatic step. -/
def enterSuspended (I : Interpreter σ) (s : Session σ) (location : SourceLocation) : Session σ :=
  let e := s.engine
  let snapshot := Snapshot.build e.config I s.vm e.resumeStack
  let e := e.transition .suspended { location := some location, snapshot := some snapshot }
  s.setEngine <|
    if e.stepping.auto then
      -- void as soon as another command is given
      let due := e.clock + e.config.autoStepDelay
      { e with timers := e.timers.schedule due (.autoStep e.generation) }
    else e

/-- Does what was put off, unless it became void. -/
def runTask (I : Interpreter σ) (s : Session σ) : TimedTask → Except Stop (Session σ)
  | .enterSuspended epoch location =>
    if epoch = s.engine.epoch ∧ s.engine.status = .suspending then
      .ok (s.enterSuspended I location)
    else .ok s
  | .autoStep generation =>
    if s.engine.stepping.auto = true ∧ generation = s.engine.generation
        ∧ s.engine.status = .suspended then
      s.stepIn I
    else .ok s

/-- Does everything that is due at `now`, what becomes due on the way included. -/
def pollAt (I : Interpreter σ) (now : Time) : Nat → Session σ → Except Stop (Session σ)
  | 0, _ => .error .outOfFuel
  | fuel + 1, s =>
    match s.engine.timers.popDue now with
    | none => .ok s
    | some (task, timers) => do
      -- the task is off the list while it runs, and may put off others
      let s ← (s.setEngine { s.engine with timers }).runTask I task
      pollAt I now fuel s

/-- **Does everything that is due.** -/
def poll (I : Interpreter σ) (fuel : Nat) (s : Session σ) : Except Stop (Session σ) :=
  s.pollAt I s.engine.clock fuel

end Session

end BytecodeDebugger
