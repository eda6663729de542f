import BytecodeDebugger.SavedSession
import BytecodeDebugger.SourcePath
import BytecodeDebugger.Stepping
import BytecodeDebugger.Timers

/-!
# The debug engine

The engine decides where a program stops and remembers everything a client can ask for. It holds no
program: what it needs of the interpreter is handed to it. Its state changes only through the
operations here, the hook replies (`Engine.reply`), the error reports and the operations of a
session; each change that a client can see is announced by an event, and each change of the
breakpoints is put down to be saved.
-/

namespace BytecodeDebugger

/-- A host call that came while the program stood still. -/
structure DeferredCall where
  function : Value
  args : List Value

/-- The source of a chunk, if it could be read. -/
structure LoadedSource where
  filename : String
  source : Option String
  deriving DecidableEq, Repr

/-- **The state of the debugger.** -/
structure Engine where
  config : Config
  breakpoints : Breakpoints
  stepping : Stepping := {}
  status : Status := .running
  payload : Payload := {}
  /-- every change of status that was asked for, the refused ones included -/
  requests : Array StatusRequest := #[]
  /-- the suspended frames, outermost first -/
  parked : List Resumable := []
  /-- the host calls that wait, oldest first -/
  waiting : List DeferredCall := []
  errors : ErrorLog := {}
  /-- everything announced so far -/
  events : Array Event := #[]
  timers : Timers := []
  /-- the present time, set by whoever drives the engine -/
  clock : Time := 0
  loaded : SortedMap String LoadedSource := .empty
  /-- the line on which each frame last suspended, until the frame runs another line or returns -/
  barriers : SortedMap FrameId SourceLocation := .empty
  /-- the line executed last -/
  lastExecuted : Option SourceLocation := none
  /-- counts the stops -/
  epoch : Nat := 0
  /-- counts the commands -/
  generation : Nat := 0
  /-- what has to be saved, oldest first -/
  unsaved : List Save := []

/-- Everything that a client needs to know at first. -/
structure CurrentState where
  loaded : SortedMap String LoadedSource
  breakpoints : BreakpointMap
  stopAtBreakpoints : Bool
  errorLog : Array ErrorRecord
  status : Status
  payload : Payload

namespace Engine

/-- The engine of a new session, with the breakpoints of a saved one. -/
def start (config : Config) (saved : SavedSession) (clock : Time) : Engine :=
  { config, clock
    breakpoints :=
      ⟨saved.breakpoints.getD .empty, saved.stopAtBreakpoints.getD config.stopAtBreakpoints⟩ }

/-- The suspended frames, innermost first. -/
def resumeStack (e : Engine) : List Resumable := e.parked.reverse

/-- The innermost suspended frame. -/
def innermost? (e : Engine) : Option Resumable := e.resumeStack.head?

/-- The nearest call frame around the innermost frame; coroutines between them do not count. -/
def enclosingCall? (e : Engine) : Option Resumable :=
  e.resumeStack.tail.find? fun r => r.frame?.isSome

/-- What the debugger knows at the moment. -/
def currentState (e : Engine) : CurrentState :=
  { loaded := e.loaded, breakpoints := e.breakpoints.flags, stopAtBreakpoints := e.breakpoints.stops
    errorLog := e.errors.log, status := e.status, payload := e.payload }

/-- Announces an event. -/
def emit (e : Engine) (event : Event) : Engine := { e with events := e.events.push event }

/-- A subscription from now on. It begins with the breakpoints and their switch. -/
def subscribe (e : Engine) : Subscription :=
  ⟨[.breakpointsUpdated e.breakpoints.flags, .stopAtBreakpointsUpdated e.breakpoints.stops],
    e.events.size⟩

/-- Puts down a part to be saved. -/
def put (e : Engine) (part : Save) : Engine := { e with unsaved := e.unsaved ++ [part] }

/-- Changes the status and announces it. A change that is not allowed is refused: it leaves nothing
but the record that it was asked for. -/
def transition (e : Engine) (next : Status) (payload : Payload) : Engine :=
  let request : StatusRequest := ⟨e.status, next, e.parked.length⟩
  -- the record stays, whatever becomes of the request
  let e := { e with requests := e.requests.push request }
  if request.isAllowed then
    { e with status := next, payload }.emit (.stateUpdated next payload)
  else e

/-- Arms the breakpoints, or disarms them. -/
def toggleStops (e : Engine) : Bool × Engine :=
  let breakpoints := e.breakpoints.toggleStops
  (breakpoints.stops,
    ({ e with breakpoints }.put (.stops breakpoints.stops)).emit
      (.stopAtBreakpointsUpdated breakpoints.stops))

/-- Takes over breakpoints in which one was flipped. Setting one arms the breakpoints. -/
def flipped (e : Engine) (file : String) (line : Nat) (isSet : Bool) (breakpoints : Breakpoints) :
    Engine :=
  let e := ({ e with breakpoints }.put (.breakpoints breakpoints.flags)).emit
    (.breakpointUpdated file line isSet)
  -- clients hear of the line first, and then that breakpoints are armed
  if isSet && !breakpoints.stops then e.toggleStops.2 else e

/-- Flips the breakpoint of a line. -/
def toggleBreakpoint (e : Engine) (file : String) (line : Nat) :
    Except Stop (Except InvalidLine (Bool × Engine)) :=
  (e.breakpoints.toggle file line).map fun toggled =>
    toggled.map fun (isSet, breakpoints) => (isSet, e.flipped file line isSet breakpoints)

/-- Every command makes the automatic steps scheduled before it void. -/
def beginCommand (e : Engine) : Engine := { e with generation := e.generation + 1 }

/-- Asks for a stop at the next instruction that admits one; only a running program can be asked. -/
def pause (e : Engine) : Engine :=
  if e.status = .running then { e.beginCommand with stepping := e.stepping.pause } else e

/-- Takes note of a chunk: its file gets a list of breakpoints, and its source is fetched and shown
to clients. Says whether there is a source. -/
def fileLoaded (e : Engine) (jsonUrl : String) (path? : Option String)
    (fetch : String → Except String String) : Bool × Engine :=
  let url := SourcePath.resolve jsonUrl path?
  -- a file that is loaded again keeps its breakpoints
  let e := { e with breakpoints := e.breakpoints.ensureFile jsonUrl }
  match fetch url with
  | .ok source =>
    (true, { e with loaded := e.loaded.insert jsonUrl ⟨url, some source⟩ }.emit
      (.sourceLoaded jsonUrl url source))
  | .error message =>
    (false, { e with loaded := e.loaded.insert jsonUrl ⟨url, none⟩ }.emit
      (.sourceMissing jsonUrl url message))

/-- What has to be saved, which then counts as handed over. -/
def takeUnsaved (e : Engine) : List Save × Engine := (e.unsaved, { e with unsaved := [] })

/-- Sets the time. -/
def setClock (e : Engine) (now : Time) : Engine := { e with clock := now }

end Engine

/-- A source as JSON. -/
def LoadedSource.toJson (s : LoadedSource) : Json :=
  .object [("filename", .string s.filename), ("source", Json.option .string s.source)]

/-- The state of the debugger as JSON. -/
def CurrentState.toJson (s : CurrentState) : Json :=
  .object [
    ("loaded", Json.ofMap LoadedSource.toJson s.loaded),
    ("breakpoints", s.breakpoints.toJson),
    ("stopAtBreakpoints", .bool s.stopAtBreakpoints),
    ("errorLog", .array (s.errorLog.toList.map ErrorRecord.toJson)),
    ("engine", .object [("state", .string s.status.name), ("data", s.payload.toJson)])]

end BytecodeDebugger
