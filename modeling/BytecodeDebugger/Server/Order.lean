import BytecodeDebugger.Breakpoints
import BytecodeDebugger.Launch
import BytecodeDebugger.Message.Basic

/-!
# Orders

What a client can ask the debugger to do. A request is an order or is refused for a reason; an order
that names a program can have the program loaded, and what the loading gave takes the name's place.
-/

namespace BytecodeDebugger

/-- **What can be asked for**, with programs of type `π`. -/
inductive Order (π : Type) where
  | introduce
  | launch (program : π) (stopOnEntry : Bool)
  | toggleBreakpoint (file : String) (line : Nat)
  | toggleStops
  | stepIn
  | stepOver
  | stepOut
  | resume
  | pause
  | autoStep
  | currentState
  | disconnect

/-- Why a request is refused. -/
inductive Refusal where
  | noProgram
  | noLine
  | invalidLine (fault : InvalidLine)
  | notLoaded (error : LoadError)
  | unknown (command : String)

/-- The wording of a refusal. -/
def Refusal.message : Refusal → String
  | .noProgram => "launch needs a program"
  | .noLine => "toggleBreakpoint needs fileId and line"
  | .invalidLine fault => fault.message
  | .notLoaded error => launchMessage error
  | .unknown command => "unknown command: " ++ command

namespace Order

/-- Reads what is to be launched. -/
def ofLaunch (arguments : Json) : Except Refusal (Order String) :=
  match (arguments.field? "program").bind Json.string? with
  | none => .error .noProgram
  -- whatever is no truth value counts as no
  | some path =>
    .ok (.launch path (((arguments.field? "stopOnEntry").bind Json.bool?).getD false))

/-- Reads which breakpoint is to be flipped. -/
def ofToggle (arguments : Json) : Except Refusal (Order String) :=
  match (arguments.field? "fileId").bind Json.string?, (arguments.field? "line").bind Json.nat? with
  | some file, some line => .ok (.toggleBreakpoint file line)
  | _, _ => .error .noLine

/-- The order that a request gives. Commands that do the same have several names. -/
def ofRequest (r : Request) : Except Refusal (Order String) :=
  match r.command with
  | "initialize" => .ok .introduce
  | "launch" => ofLaunch (r.arguments.getD .null)
  | "toggleBreakpoint" => ofToggle (r.arguments.getD .null)
  | "toggleStopAtBreakpoints" => .ok .toggleStops
  | "stepIn" => .ok .stepIn
  | "stepOver" | "next" => .ok .stepOver
  | "stepOut" => .ok .stepOut
  | "resume" | "continue" => .ok .resume
  | "pause" => .ok .pause
  | "autoStep" => .ok .autoStep
  | "getCurrentState" => .ok .currentState
  | "disconnect" => .ok .disconnect
  | command => .error (.unknown command)

/-- Loads the program of an order. -/
def load {m : Type → Type} [Monad m] (read : String → m (Except FileFault String)) :
    Order String → m (Order (Except LoadError Program))
  | .introduce => pure .introduce
  | .launch path stopOnEntry => do return .launch (← Program.load read path) stopOnEntry
  | .toggleBreakpoint file line => pure (.toggleBreakpoint file line)
  | .toggleStops => pure .toggleStops
  | .stepIn => pure .stepIn
  | .stepOver => pure .stepOver
  | .stepOut => pure .stepOut
  | .resume => pure .resume
  | .pause => pure .pause
  | .autoStep => pure .autoStep
  | .currentState => pure .currentState
  | .disconnect => pure .disconnect

end Order

end BytecodeDebugger
