import BytecodeDebugger.Launch
import BytecodeDebugger.Text.Count
import BytecodeDebugger.Text.Words

/-!
# The console

A user types one command a line; words are parted as in a shell. What the program prints and what
the session announces is shown in lines of text. Showing is selective: only a stop, a breakpoint, an
error and a missing source are worth a line.
-/

namespace BytecodeDebugger

namespace Console

/-- **What a line asks for.** -/
inductive Command where
  | nothing
  /-- a quote that is not closed -/
  | unbalanced
  | toggleBreakpoint (file : String) (line : Nat)
  /-- a breakpoint without a file or with no line number -/
  | breakUsage
  | toggleStops
  | stepIn
  | stepOver
  | stepOut
  | resume
  | pause
  | autoStep
  | state
  | quit
  | help
  | unknown (word : String)
  deriving DecidableEq, Repr

/-- What follows a command: the next line, at once or after everything due was done, or the end. -/
inductive Next where
  | prompt
  | settle
  | leave
  deriving DecidableEq, Repr

namespace Command

/-- Reads a breakpoint; words behind the line number mean nothing. -/
def ofBreak : List String → Command
  | file :: line :: _ =>
    -- only the number is checked here, line 0 is refused by the engine
    match Text.readCount Text.maxWord line.toList with
    | .ok line => .toggleBreakpoint file line
    | .error _ => .breakUsage
  | _ => .breakUsage

/-- The command that words are. -/
def ofWords : List String → Command
  | [] => .nothing
  | word :: args =>
    match word with
    | "break" | "b" => ofBreak args
    | "stops" => .toggleStops
    | "step" | "s" => .stepIn
    | "next" | "n" => .stepOver
    | "out" | "o" => .stepOut
    | "continue" | "c" => .resume
    | "pause" => .pause
    | "auto" => .autoStep
    | "state" => .state
    | "quit" | "q" => .quit
    | "help" | "h" => .help
    | word => .unknown word

/-- The command that a line is. -/
def ofLine (line : String) : Command :=
  match Text.words line with
  | none => .unbalanced
  | some words => ofWords words

/-- What follows a command. -/
def next : Command → Next
  | .nothing => .prompt
  | .unbalanced => .prompt
  | .quit => .leave
  | _ => .settle

end Command

/-- The commands and what they do. -/
def helpLines : List String := [
  "break FILE LINE   toggle a breakpoint",
  "stops             toggle stopping at breakpoints",
  "step | next | out step in, over or out",
  "continue          resume execution",
  "pause             stop at the next instruction",
  "auto              toggle auto-stepping",
  "state             dump the debugger state",
  "quit              exit"]

/-- **Carries out a command** and says what to show of it at once. -/
def obey (fuel : Nat) (s : Session Machine) :
    Command → Except Stop (List String × Session Machine)
  | .nothing => .ok ([], s)
  | .unbalanced => .ok (["unbalanced quotes"], s)
  | .toggleBreakpoint file line =>
    (s.engine.toggleBreakpoint file line).map fun
      | .ok (_, e) => ([], s.setEngine e)
      | .error fault => ([fault.message], s)
  | .breakUsage => .ok (["usage: break FILE LINE"], s)
  | .toggleStops => .ok ([], s.setEngine s.engine.toggleStops.2)
  | .stepIn => (s.stepIn (Machine.interpreter fuel)).map fun s => ([], s)
  | .stepOver => (s.stepOver (Machine.interpreter fuel)).map fun s => ([], s)
  | .stepOut => (s.stepOut (Machine.interpreter fuel)).map fun s => ([], s)
  | .resume => (s.resume (Machine.interpreter fuel)).map fun s => ([], s)
  | .pause => .ok ([], s.setEngine s.engine.pause)
  | .autoStep =>
    (s.autoStep (Machine.interpreter fuel)).map fun (on, s) =>
      (["auto step " ++ if on then "on" else "off"], s)
  | .state => .ok ([s.engine.currentState.toJson.pretty], s)
  | .quit => .ok ([], s)
  | .help => .ok (helpLines, s)
  | .unknown word => .ok (["unknown command '" ++ word ++ "', try help"], s)

/-- A stop, as shown. -/
def showStop (p : Payload) : List String :=
  (p.location.map fun place => "stopped at " ++ place.url ++ ":" ++ toString place.line).toList
    ++ (p.snapshot.map fun snapshot =>
      (snapshot.locals.toList.map fun l => "  " ++ l.1 ++ " = " ++ l.2.toJson.compact)
        ++ snapshot.callStack.map fun frame => "  " ++ frame).getD []

/-- An event, as shown. -/
def showEvent : Event → List String
  | .stateUpdated .suspended payload => showStop payload
  | .breakpointUpdated file line isSet =>
    ["breakpoint " ++ (if isSet then "set" else "cleared") ++ " at " ++ file ++ ":" ++
      toString line]
  | .stopAtBreakpointsUpdated stops =>
    ["stop at breakpoints: " ++ if stops then "true" else "false"]
  | .error record => ["error #" ++ toString record.index ++ ": " ++ record.message]
  | .sourceMissing _ url message => ["no source for " ++ url ++ ": " ++ message]
  -- everything else is seen by its effects
  | _ => []

/-- A call that launched a program, as shown. -/
def showLaunch (traceback : Option String) : Execution → List String
  | .failed error => ("error: " ++ error.message) :: traceback.toList
  | _ => []

end Console

/-- **A session and what its user has been shown.** -/
structure Console where
  session : Session Machine
  /-- the events shown so far -/
  subscription : Subscription

namespace Console

/-- A console over a new session, whose breakpoints are no news. -/
def start (session : Session Machine) : Console := ⟨session, .caughtUp session.engine.events⟩

/-- The lines that show what was printed and announced. -/
def report (c : Console) : List String × Console :=
  -- what was printed stands in front of what was announced
  let (lines, vm) := c.session.vm.takeOutput
  let events := c.subscription.pending c.session.engine.events
  (lines ++ events.flatMap showEvent,
    ⟨{ c.session with vm }, .caughtUp c.session.engine.events⟩)

end Console

end BytecodeDebugger
