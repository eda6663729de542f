import BytecodeDebugger.CommandLine.Options
import BytecodeDebugger.CommandLine.World
import BytecodeDebugger.Console
import BytecodeDebugger.Server.Basic

/-!
# Running the command line

One session over the machine, driven by the lines of a user or by the messages of a client. The
clock is read before every operation, so that what an operation puts off is due when the next one
asks for it; what the session wants saved is saved after every operation. All of it is written over
effects `m` that can also stop without a result, as the interpreter can.
-/

namespace BytecodeDebugger.CommandLine

variable {m : Type → Type} [Monad m] [MonadExceptOf Stop m]

/-- The exit codes: success, failure, wrong arguments, and a debugger that had to end. -/
inductive Exit where
  | success
  | failure
  | misuse
  | breakdown
  deriving DecidableEq, Repr

/-- The number of an exit code. -/
def Exit.code : Exit → Nat
  | .success => 0
  | .failure => 1
  | .misuse => 2
  | .breakdown => 101

/-- How a run that stops without a result exits. -/
def Exit.ofStop : Stop → Exit
  | .overflow => .breakdown
  | .outOfFuel => .failure
  | .lostFrame _ => .failure

/-- Saves what the session put down, in a file if there is one for it. -/
def save (w : World m) (store? : Option String) (s : Session Machine) : m (Session Machine) := do
  let (parts, engine) := s.engine.takeUnsaved
  if let some path := store? then
    parts.forM fun part => do
      -- a file that cannot be read stays as it is
      match Store.update (← w.readFile path) part with
      | .ok text => w.writeFile path text
      | .error _ => pure ()
  return s.setEngine engine

/-- The session with the time of its surroundings. -/
def clocked (w : World m) (s : Session Machine) : m (Session Machine) := do
  return s.setEngine (s.engine.setClock (← w.now))

/-- A session that begins with the breakpoints of the one before it. -/
def openSession (w : World m) (config : Config) (store? : Option String) :
    m (Session Machine) := do
  let saved ← match store? with
    | none => pure {}
    | some path => do
      let contents ← w.readFile path
      -- a session that cannot be restored begins empty
      pure ((Store.ofFile contents).toOption.getD {})
  return ⟨Engine.start config saved (← w.now), Machine.initial⟩

/-- Shows what happened. -/
def report (w : World m) (c : Console) : m Console := do
  let (lines, c) := c.report
  lines.forM w.printLine
  return c

/-- **Does everything that is due**, and sleeps through the pauses of automatic steps. -/
def settle (w : World m) (budget : Nat) : Nat → Console → m Console
  | 0, _ => throw .outOfFuel
  | fuel + 1, c => do
    let now ← w.now
    let session ← clocked w c.session
    let session ← ofExcept (session.pollAt (Machine.interpreter budget) now budget)
    let c ← report w { c with session }
    match c.session.engine.timers.nextDue with
    | none => return c
    | some due =>
      -- time has passed meanwhile, so that more may be due
      if due ≤ (← w.now) then settle w budget fuel c
      else if c.session.engine.stepping.auto then do
        w.sleepUntil due
        settle w budget fuel c
      else return c

/-- The prompt. -/
def prompt : String := "(luadbg) "

/-- **Talks to a user** until the lines end or one leaves. -/
def talk (w : World m) (store? : Option String) (budget : Nat) : Nat → Console → m Exit
  | 0, _ => throw .outOfFuel
  | fuel + 1, c => do
    w.print prompt
    match ← w.nextLine with
    | .ended => return .success
    | .garbled => return .failure
    | .text line =>
      let command := Console.Command.ofLine line
      let session ← clocked w c.session
      let (lines, session) ← ofExcept (Console.obey budget session command)
      -- saved even when the command shows nothing
      let session ← save w store? session
      lines.forM w.printLine
      let c := { c with session }
      match command.next with
      | .leave => return .success
      | .prompt => talk w store? budget fuel c
      | .settle => talk w store? budget fuel (← settle w budget budget c)

/-- **Debugs a program from the console.** -/
def debug (w : World m) (store? : Option String) (budget : Nat) (path : String)
    (stopOnEntry : Bool) (session : Session Machine) : m Exit := do
  let c := Console.start session
  match ← Program.load w.readFile path with
  | .error e =>
    w.printLine ("cannot launch " ++ path ++ ": " ++ launchMessage e)
    return .success
  | .ok program =>
    let session ← clocked w c.session
    let (execution, session) ← ofExcept (Session.launch budget program stopOnEntry session)
    (Console.showLaunch session.vm.traceback execution).forM w.printLine
    talk w store? budget budget (← settle w budget budget { c with session })

/-- Writes messages. -/
def writeAll (w : World m) (messages : List Message) : m Unit :=
  messages.forM fun message => w.print message.framed

/-- Does what is due and tells the client. -/
def tick (w : World m) (budget : Nat) (s : Server) : m Server := do
  let now ← w.now
  let session ← clocked w s.session
  let (messages, s) ← ofExcept ({ s with session }.tick budget now)
  writeAll w messages
  return s

/-- **Serves a client** until it disconnects or its messages end. -/
def serve (w : World m) (store? : Option String) (budget : Nat) : Nat → Server → m Unit
  | 0, _ => throw .outOfFuel
  | fuel + 1, s => do
    match ← w.nextMessage s.session.engine.timers.nextDue with
    | .closed => return
    | .quiet => serve w store? budget fuel (← tick w budget s)
    | .message message =>
      let session ← clocked w s.session
      let served ← ofExcept (← Server.handle budget w.readFile message { s with session })
      let session ← save w store? served.server.session
      -- the answer goes out before anything that is due
      writeAll w served.written
      if served.connected then
        serve w store? budget fuel (← tick w budget { served.server with session })

/-- Runs what the options ask for. -/
def runOptions (w : World m) (budget : Nat) (o : Options) : m Exit := do
  let config ← match o.config with
    | none => pure (.ok {})
    | some path => do
      let contents ← w.readFile path
      pure (loadFile Config.decoder path contents)
  -- without a configuration that can be read nothing is started
  match config with
  | .error e =>
    w.complain (Config.loadMessage e)
    return .failure
  | .ok config =>
    let session ← openSession w config o.store
    if o.dap then
      serve w o.store budget budget (Server.start session)
      return .success
    else match o.program with
      | none =>
        w.complain "no program given; pass a *.lua.json file or --dap"
        return .failure
      | some path => debug w o.store budget path o.stopOnEntry session

/-- **Runs the command line.** -/
def run (w : World m) (budget : Nat) (args : List String) : m Exit := do
  match Options.ofArgs args with
  | .ok o => runOptions w budget o
  | .error .help =>
    w.printLine Usage.helpText
    return .success
  | .error usage =>
    w.complain usage.message
    return .misuse

end BytecodeDebugger.CommandLine
