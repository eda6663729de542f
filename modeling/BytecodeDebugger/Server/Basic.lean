import BytecodeDebugger.Server.Order

/-!
# The server

A server drives one session over the machine from the messages of a client. Every request is
answered once, before anything else that it causes; what the program prints and what the session
announces is passed on after each request and after each tick. Messages are numbered from 1 in the
order in which they are written.

A request that is refused leaves the session as it was.
-/

namespace BytecodeDebugger

/-- **A session and what its client has been told.** -/
structure Server where
  session : Session Machine
  /-- the events passed on so far -/
  subscription : Subscription
  /-- the number of the message written last -/
  seq : Nat

/-- What handling a message gives. -/
structure Served where
  written : List Message
  /-- whether the client stays connected -/
  connected : Bool
  server : Server

/-- The kind of the messages that a server writes with a content. -/
def Content.kind : Content → String
  | .response _ => "response"
  | .notice _ => "event"
  | .request _ => "request"

/-- An event as the notice that passes it on. -/
def Event.notice (e : Event) : Notice := ⟨e.name, e.body?.map Json.canonical⟩

/-- A printed line as the notice that passes it on. -/
def printedNotice (line : String) : Notice :=
  ⟨"output", some (.object [("output", .string (line ++ "\n"))])⟩

/-- What a client is told about the server at first. -/
def capabilities : Json :=
  .object [
    ("supportsConfigurationDoneRequest", .bool false),
    ("supportsStepBack", .bool false),
    ("supportsConditionalBreakpoints", .bool false),
    ("supportsSetVariable", .bool false),
    ("commands", Json.strings [
      "launch", "toggleBreakpoint", "toggleStopAtBreakpoints", "stepIn", "stepOver", "stepOut",
      "resume", "pause", "autoStep", "getCurrentState", "disconnect"])]

/-- What a client is told about a program that was launched. -/
def launchReport (traceback : Option String) : Execution → Json
  | .completed _ => .object [("outcome", .string "completed")]
  | .suspended => .object [("outcome", .string "suspended")]
  | .queued => .object [("outcome", .string "queued")]
  | .failed error => .object [
      ("outcome", .string "failed"),
      ("message", .string error.message),
      ("traceback", Json.option .string traceback)]

namespace Session

/-- What carrying out an order gives: the body of the answer, or a refusal. -/
abbrev Answer := Except Refusal (Option Json)

/-- An order that gives no more than that it was carried out. -/
def silently (result : Except Stop (Session Machine)) : Except Stop (Answer × Session Machine) :=
  result.map fun s => (.ok none, s)

/-- **Carries out an order.** -/
def obey (fuel : Nat) (s : Session Machine) :
    Order (Except LoadError Program) → Except Stop (Answer × Session Machine)
  | .introduce => .ok (.ok (some capabilities), s)
  | .launch (.error e) _ => .ok (.error (.notLoaded e), s)
  | .launch (.ok program) stopOnEntry =>
    (Session.launch fuel program stopOnEntry s).map fun (execution, s) =>
      (.ok (some (launchReport s.vm.traceback execution)), s)
  | .toggleBreakpoint file line =>
    (s.engine.toggleBreakpoint file line).map fun
      | .error fault => (.error (.invalidLine fault), s)
      | .ok (isSet, e) =>
        let body := Json.object [
          ("fileId", .string file), ("line", Json.nat line), ("isSet", .bool isSet)]
        (.ok (some body), s.setEngine e)
  | .toggleStops =>
    let (stops, e) := s.engine.toggleStops
    .ok (.ok (some (.object [("stopAtBreakpoints", .bool stops)])), s.setEngine e)
  | .stepIn => silently (s.stepIn (Machine.interpreter fuel))
  | .stepOver => silently (s.stepOver (Machine.interpreter fuel))
  | .stepOut => silently (s.stepOut (Machine.interpreter fuel))
  | .resume => silently (s.resume (Machine.interpreter fuel))
  | .pause => .ok (.ok none, s.setEngine s.engine.pause)
  | .autoStep =>
    (s.autoStep (Machine.interpreter fuel)).map fun (on, s) =>
      (.ok (some (.object [("autoStep", .bool on)])), s)
  | .currentState => .ok (.ok (some s.engine.currentState.toJson), s)
  | .disconnect => .ok (.ok none, s)

end Session

namespace Server

/-- A server over a new session. -/
def start (session : Session Machine) : Server := ⟨session, session.engine.subscribe, 0⟩

/-- Writes a message. -/
def send (s : Server) (content : Content) : Message × Server :=
  -- the number written last is kept, so that the first message has number 1
  (⟨s.seq + 1, content.kind, content⟩, { s with seq := s.seq + 1 })

/-- Writes messages in order. -/
def sendAll (s : Server) : List Content → List Message × Server
  | [] => ([], s)
  | content :: contents =>
    let (message, s) := s.send content
    let (messages, s) := s.sendAll contents
    (message :: messages, s)

/-- Passes on what was printed and announced. -/
def flush (s : Server) : List Message × Server :=
  let (lines, vm) := s.session.vm.takeOutput
  let events := s.subscription.pending s.session.engine.events
  { s with
    session := { s.session with vm }
    subscription := .caughtUp s.session.engine.events }.sendAll
    -- what was printed goes first
    (lines.map (Content.notice ∘ printedNotice) ++ events.map (Content.notice ∘ Event.notice))

/-- The answer to a request. -/
def respond (requestSeq : Nat) (command : String) : Session.Answer → Response
  | .ok body => { requestSeq, success := true, command, body := body.map Json.canonical }
  | .error refusal => { requestSeq, command, message := some refusal.message }

/-- What else follows the answer at once. -/
def afterwards : Except Refusal (Order (Except LoadError Program)) → List Content
  | .ok .introduce => [.notice ⟨"initialized", none⟩]
  | _ => []

/-- Whether the client stays. -/
def stays : Except Refusal (Order (Except LoadError Program)) → Bool
  | .ok .disconnect => false
  | _ => true

/-- Answers a request, given the order that it is. -/
def answer (fuel : Nat) (requestSeq : Nat) (command : String)
    (order : Except Refusal (Order (Except LoadError Program))) (s : Server) :
    Except Stop Served := do
  let (result, session) ← match order with
    | .ok order => s.session.obey fuel order
    | .error refusal => .ok (.error refusal, s.session)
  -- the answer is numbered before anything that it causes
  let (answered, s) := { s with session }.sendAll
    (.response (respond requestSeq command result) :: afterwards order)
  let (passedOn, s) := s.flush
  return ⟨answered ++ passedOn, stays order, s⟩

/-- **Handles a message**, with a way to read files. Only requests have an effect. -/
def handle {m : Type → Type} [Monad m] (fuel : Nat) (read : String → m (Except FileFault String))
    (message : Message) (s : Server) : m (Except Stop Served) := do
  match message.content with
  | .request r =>
    let order ← match Order.ofRequest r with
      | .ok order => .ok <$> order.load read
      | .error refusal => pure (.error refusal)
    return s.answer fuel message.seq r.command order
  | _ => return .ok ⟨[], true, s⟩

/-- **Does what is due** at `now` and passes on what came of it. -/
def tick (fuel : Nat) (now : Time) (s : Server) : Except Stop (List Message × Server) := do
  let session ← s.session.pollAt (Machine.interpreter fuel) now fuel
  return { s with session }.flush

end Server

end BytecodeDebugger
