import BytecodeDebugger.Heap
import BytecodeDebugger.Interpreter

/-!
# An interpreter that plays scripts

A player makes the moves that are written down for it: it consults the hook at instructions that no
program contains, parks and takes frames back in any order, and ends as it is told. With it the
engine can be driven into every corner of its rules. What the hook answers is noted in a trace.
-/

namespace BytecodeDebugger

/-- **A move.** The last five end a script. -/
inductive Act where
  /-- consults the hook about an instruction, after moving the frame's counter behind it; on a
  suspension parks what is listed, if there is a list, and ends suspended -/
  | before (frame : FrameId) (pc line : Nat) (opcode : UInt8) (coroutineResuming : Bool)
      (file? : Option String) (parks? : Option (List Resumable))
  | after (frame : FrameId) (pc : Nat) (opcode : UInt8) (failure : Option RuntimeError)
  | park (entry : Resumable)
  | take
  | isResuming
  | error (message : String)
  | kill (frame : FrameId)
  /-- raises a new error of the hook with this stack -/
  | raise (message : String) (stack : List StackEntry)
  | fail (error : RuntimeError)
  | hostFail (error : HostError)
  | complete (values : List Value)
  | suspend

/-- What a move brought to light. -/
inductive Note where
  | ranFrame (frame : FrameId)
  | resumedCoroutine (id : CoroutineId)
  | called (function : Value) (args : List Value)
  | proceeded (pc : Nat)
  | suspended (pc : Nat)
  | noFrame
  | checked (failure : Option RuntimeError)
  | parked
  | took (entry : Option Resumable)
  | resuming (b : Bool)
  | raised (error : RuntimeError)
  | killed (existed : Bool)

/-- A frame of a player. -/
structure PlayerFrame where
  pc : Nat := 0
  file : String := ""
  locals : List LocalVar := []
  registers : Array Value := #[]
  upvalues : List (String × Value) := []

/-- **The state of a player.** -/
structure Player where
  frames : SortedMap FrameId PlayerFrame := .empty
  globals : List (String × Value) := []
  heap : Heap := .empty
  scripts : List (List Act) := []
  trace : Array Note := #[]

namespace Player

/-- Adds a note to the trace. -/
def note (p : Player) (n : Note) : Player := { p with trace := p.trace.push n }

/-- The notes so far, which are then taken. -/
def takeTrace (p : Player) : List Note × Player := (p.trace.toList, { p with trace := #[] })

/-- What a frame shows. -/
def view? (p : Player) (frame : FrameId) : Option FrameView :=
  (p.frames.get? frame).map fun f =>
    { pc := f.pc, file := f.file, locals := f.locals
      register := fun i => f.registers.getD i .nil, upvalues := f.upvalues }

/-- One line of a call stack. -/
def renderEntry (entry : StackEntry) : String :=
  "    at frame " ++ toString entry.frame ++ " (pc " ++ toString entry.pc ++ ")"

/-- Parks entries in order. -/
def parkAll {α : Type} : List Resumable → Attended α → Attended α
  | [], rest => rest
  | entry :: entries, rest => .ask (.park entry) fun _ => parkAll entries rest

/-- **Plays a script.** A script that runs out completes without values. -/
def play (p : Player) : List Act → Attended (RunResult × Player)
  | [] => .done (.ok (.completed []), p)
  | .before frame pc line opcode coroutineResuming file? parks? :: acts =>
    match p.frames.get? frame with
    | none => (p.note .noFrame).play acts
    | some f =>
      -- behind the instruction, like any interpreter
      let f := { f with pc := pc + 1, file := file?.getD f.file }
      let site : Site :=
        { frame, file := f.file, nextPc := pc + 1, line, opcode, coroutineResuming }
      .ask (.before site) fun
        | .proceed =>
          ({ p with frames := p.frames.insert frame f }.note (.proceeded f.pc)).play acts
        | .suspend pc =>
          let p := { p with frames := p.frames.insert frame { f with pc } }.note (.suspended pc)
          -- a script without a list parks nothing by itself and plays on
          match parks? with
          | none => p.play acts
          | some entries => parkAll entries (.done (.ok .suspended, p))
  | .after frame pc opcode failure :: acts =>
    .ask (.after frame pc opcode failure) fun reply => (p.note (.checked reply)).play acts
  | .park entry :: acts => .ask (.park entry) fun _ => (p.note .parked).play acts
  | .take :: acts => .ask .takeResume fun entry => (p.note (.took entry)).play acts
  | .isResuming :: acts => .ask .isResuming fun b => (p.note (.resuming b)).play acts
  | .error message :: acts => .ask (.raise message) fun e => (p.note (.raised e)).play acts
  | .kill frame :: acts =>
    ({ p with frames := p.frames.erase frame }.note (.killed (p.frames.contains frame))).play acts
  | .raise message stack :: _ =>
    .ask (.raise message) fun (e : RuntimeError) => .done (.error (.runtime { e with stack }), p)
  | .fail error :: _ => .done (.error (.runtime error), p)
  | .hostFail error :: _ => .done (.error (.host error), p)
  | .complete values :: _ => .done (.ok (.completed values), p)
  | .suspend :: _ => .done (.ok .suspended, p)

/-- Plays the next script. -/
def playNext (p : Player) : Attended (RunResult × Player) :=
  match p.scripts with
  | [] => p.play []
  | script :: scripts => { p with scripts }.play script

/-- **The player as an interpreter.** -/
def interpreter : Interpreter Player where
  frame? := view?
  globals := globals
  fields p := p.heap.fields
  renderStack _ stack := "\n".intercalate (stack.map renderEntry)
  runFrame frame p := (p.note (.ranFrame frame)).playNext
  resumeCoroutine id p := (p.note (.resumedCoroutine id)).playNext
  call f args p := (p.note (.called f args)).playNext

end Player

end BytecodeDebugger
