import BytecodeDebugger.Machine.Instruction

/-!
# Running the machine

The calls in progress form a stack of frames, innermost first. `turn` consults the hook about the
next instruction of the innermost frame, carries it out and says how the run goes on; `run` takes
turns. To suspend is to return: the frames stay in the machine, and `runFrame` builds the stack
again from the frames that the hook hands back.

Host functions may call functions of the language; those calls run to their end inside one turn,
unattended. The budget of a run bounds its turns, those of its inner calls included.
-/

namespace BytecodeDebugger

/-- How many calls may be in progress. -/
def maxCallDepth : Nat := 200

/-- How a run goes on after a turn. -/
inductive Turn where
  | goOn (stack : List FrameId) (m : Machine)
  | finish (result : RunResult) (m : Machine)

/-- A call that runs to its end. -/
abbrev InnerCall : Type := Value → List Value → Machine → Except Stop (RunResult × Machine)

/-- Lets a host function work. -/
def Host.run (inner : InnerCall) :
    Host → Machine → Except Stop (Except ExecError (List Value) × Machine)
  | .result values, m => .ok (.ok values, m)
  | .raise e, m => .ok (.error e, m)
  | .print line next, m => next.run inner { m with output := m.output.push line }
  | .setGlobal name v next, m => next.run inner (m.setGlobal name v)
  | .tables next, m => (next m.heap).run inner m
  | .setTables heap next, m => next.run inner { m with heap }
  | .load chunk file next, m =>
    let (id, m) := m.load chunk file
    (next id).run inner m
  | .call f args next, m =>
    match inner f args m with
    | .error reason => .error reason
    -- a failure of the call is given to the host function, which may go on
    | .ok (outcome, m) => (next (outcome.map Outcome.values)).run inner m

/-- An attended run that only may stop. -/
def Attended.ofExcept {α : Type} : Except Stop α → Attended α
  | .ok a => .done a
  | .error reason => .stop reason

/-- Adds entries to what an error passed. -/
def ExecError.through (entries : List StackEntry) : ExecError → ExecError
  | .runtime e => .runtime { e with stack := e.stack ++ entries }
  | .host e => .host { e with stack := e.stack ++ entries }

/-- What an error passed. -/
def ExecError.stack : ExecError → List StackEntry
  | .runtime e => e.stack
  | .host e => e.stack

namespace Machine

/-- Where the callers of a failed frame stand: each at the call it is waiting for. -/
def callerEntries (m : Machine) : List FrameId → Except Stop (List StackEntry)
  | [] => .ok []
  | frame :: callers =>
    match m.frame? frame with
    | none => .error (.lostFrame frame)
    | some a => (callerEntries m callers).map (⟨frame, a.pc - 1⟩ :: ·)

/-- Drops the frames of a run. -/
def abandon (m : Machine) (stack : List FrameId) : Machine := stack.foldl dropFrame m

/-- Ends a run with an error of its innermost frame: every caller is added to what the error passed,
the whole is rendered, and the frames are dropped. -/
def unwind (m : Machine) (stack : List FrameId) (e : ExecError) :
    Except Stop (ExecError × Machine) :=
  (m.callerEntries stack.tail).map fun entries =>
    let e := e.through entries
    -- rendered while the frames are there
    (e, { m with traceback := some (m.renderStack e.stack) }.abandon stack)

/-- Ends a run with an error. -/
def failTurn (m : Machine) (stack : List FrameId) (e : ExecError) : Attended Turn :=
  Attended.ofExcept ((m.unwind stack e).map fun (e, m) => .finish (.error e) m)

/-- Parks frames, innermost first. -/
def parkAll {α : Type} : List FrameId → Attended α → Attended α
  | [], rest => rest
  | frame :: frames, rest => .ask (.park (.call frame)) fun _ => parkAll frames rest

/-- An error of the program that a host function made itself has no index yet: it is raised anew
through the hook. -/
def restamp : Except ExecError (List Value) → Attended (Except ExecError (List Value))
  | .error (.runtime ⟨message, _, none⟩) =>
    .ask (.raise message) fun (e : RuntimeError) => .done (.error (.runtime e))
  | result => .done result

/-- Returns from the innermost frame and hands the values to its caller. -/
def leaveTurn (m : Machine) (current : FrameId) (callers : List FrameId) (values : List Value) :
    Attended Turn :=
  let m := m.dropFrame current
  match callers with
  | [] => .done (.finish (.ok (.completed values)) m)
  | caller :: _ =>
    match m.frame? caller with
    | none => .stop (.lostFrame caller)
    | some a => .done (.goOn callers (m.setFrame caller (a.deliver values)))

/-- Goes on in a call just started, unless too many are in progress. -/
def enterTurn (m : Machine) (stack : List FrameId) (frame : FrameId) : Attended Turn :=
  let stack := frame :: stack
  -- the call just entered counts, and its frame is dropped with the others
  if maxCallDepth < stack.length then
    .ask (.raise "stack overflow") fun (e : RuntimeError) =>
      .done (.finish (.error (.runtime e)) ({ m with traceback := none }.abandon stack))
  else .done (.goOn stack m)

/-- Reports an instruction to the hook that ran without failure, and goes on if the hook agrees. -/
def reportDone (m : Machine) (stack : List FrameId) (current : FrameId) (pc : Nat) (code : UInt8)
    (next : Attended Turn) : Attended Turn :=
  .ask (.after current pc code none) fun
    | none => next
    | some e => m.failTurn stack (.runtime e)

/-- Reports a failed instruction to the hook. A hook that lets the failure go makes the run go
on. -/
def reportFailed (m : Machine) (stack : List FrameId) (current : FrameId) (pc : Nat) (code : UInt8)
    (e : RuntimeError) : Attended Turn :=
  .ask (.after current pc code (some e)) fun
    | none => .done (.goOn stack m)
    | some e => m.failTurn stack (.runtime e)

/-- Goes on as the effect of an instruction says. -/
def settle (inner : InnerCall) (m : Machine) (current : FrameId) (callers : List FrameId) (pc : Nat)
    (code : UInt8) : Effect → Attended Turn
  | .next =>
    m.reportDone (current :: callers) current pc code (.done (.goOn (current :: callers) m))
  | .enter frame =>
    m.reportDone (current :: callers) current pc code (m.enterTurn (current :: callers) frame)
  | .leave values =>
    m.reportDone (current :: callers) current pc code (m.leaveTurn current callers values)
  | .fault message =>
    .ask (.raise message) fun (e : RuntimeError) =>
      m.reportFailed (current :: callers) current pc code e
  | .overflow => .stop .overflow
  | .host body base c => do
    let (result, m) ← Attended.ofExcept (body.run inner m)
    match ← restamp result with
    | .error (.runtime e) => m.reportFailed (current :: callers) current pc code e
    | .error (.host e) =>
      -- the hook is not told, so that the frame is noted here
      m.failTurn (current :: callers) ((ExecError.host e).through [⟨current, pc⟩])
    | .ok values =>
      match m.frame? current with
      | none => .stop (.lostFrame current)
      | some a =>
        -- the results go to the frame as it is now
        let m := m.setFrame current (a.place base c values)
        m.reportDone (current :: callers) current pc code (.done (.goOn (current :: callers) m))

/-- **One turn**: the hook is consulted about the next instruction of the innermost frame, and the
instruction runs unless the hook suspends. The end of the instructions is a bare return. -/
def turn (inner : InnerCall) (m : Machine) : List FrameId → Attended Turn
  | [] => .done (.finish (.ok (.completed [])) m)
  | current :: callers =>
    match m.frame? current with
    | none => .stop (.lostFrame current)
    | some a =>
      match a.closure.proto.instructions[a.pc]? with
      | none =>
        m.reportDone (current :: callers) current a.pc Op.returnCode
          (m.leaveTurn current callers [])
      | some i =>
        let site : Site :=
          { frame := current, file := a.closure.file, nextPc := a.pc + 1,
            line := a.closure.proto.lineAt a.pc, opcode := i.code, coroutineResuming := false }
        .ask (.before site) fun
          | .suspend pc =>
            parkAll callers (.done (.finish (.ok .suspended) (m.setFrame current { a with pc })))
          | .proceed =>
            -- jumps count from the instruction behind this one
            let (m, a', effect) := m.perform { a with pc := a.pc + 1 } i
            settle inner (m.setFrame current a') current callers a.pc i.code effect

mutual

/-- **Runs a stack of frames**, innermost first. -/
def run : Nat → List FrameId → Machine → Attended (RunResult × Machine)
  | 0, _, _ => .stop .outOfFuel
  | fuel + 1, stack, m =>
    (turn (fun f args m => (call fuel f args m).detach) m stack).bind fun
      | .goOn stack m => run fuel stack m
      | .finish result m => .done (result, m)

/-- **Calls a value.** -/
def call : Nat → Value → List Value → Machine → Attended (RunResult × Machine)
  | 0, _, _, _ => .stop .outOfFuel
  | fuel + 1, f, args, m =>
    match m.callable? f with
    | some (.closure closure) =>
      if closure.Fits then
        let (frame, m) := m.enter closure args
        run fuel [frame] m
      else .stop .overflow
    | some (.host body) => do
      let (result, m) ←
        Attended.ofExcept ((body args).run (fun f args m => (call fuel f args m).detach) m)
      let result ← restamp result
      return (result.map Outcome.completed, m)
    | none => .ask (.raise (callFault f)) fun (e : RuntimeError) => .done (.error (.runtime e), m)

end

/-- Takes frames back from the hook until it has no more, adding each inside the ones before. -/
def rebuild : Nat → List FrameId → Attended (Except ExecError (List FrameId))
  | 0, _ => .stop .outOfFuel
  | fuel + 1, stack =>
    .ask .takeResume fun
      | none => .done (.ok stack)
      | some (.call frame) => rebuild fuel (frame :: stack)
      | some (.coroutine id) =>
        .done (.error (.host
          { message := "coroutine " ++ toString id ++ " cannot be resumed inside a call chain" }))

/-- **Enters a suspended frame again**, and with it the frames that it was waiting for. -/
def runFrame (fuel : Nat) (frame : FrameId) (m : Machine) : Attended (RunResult × Machine) := do
  match ← rebuild fuel [frame] with
  | .error e => return (.error e, m)
  | .ok stack =>
    -- of several frames that are gone the outermost is named
    match stack.reverse.find? fun id => (m.frame? id).isNone with
    | some id => return (.error (.host { message := "frame " ++ toString id ++ " is not live" }), m)
    | none => run fuel stack m

/-- The machine has no coroutines. -/
def resumeCoroutine (id : CoroutineId) (m : Machine) : Attended (RunResult × Machine) :=
  .done (.error (.host { message :=
    "coroutine " ++ toString id ++ " cannot be resumed: coroutines are not supported" }), m)

/-- **The machine as an interpreter**, each entry with the budget given. -/
def interpreter (fuel : Nat) : Interpreter Machine where
  frame? := view?
  globals m := m.heap.fields globalTable
  fields m := m.heap.fields
  renderStack := renderStack
  runFrame := runFrame fuel
  resumeCoroutine := resumeCoroutine
  call := call fuel

end Machine

end BytecodeDebugger
