import BytecodeDebugger.Breakpoints
import BytecodeDebugger.ErrorLog
import BytecodeDebugger.Snapshot

/-!
# Events

What the debugger announces. The events of a session form one sequence that only grows; a
subscription is a place in it, behind some events of its own that tell a newcomer how things stand.
-/

namespace BytecodeDebugger

/-- What goes with a status: where the program stopped, and what it looks like there. -/
structure Payload where
  location : Option SourceLocation := none
  snapshot : Option Snapshot := none

/-- The fields of a payload as JSON. -/
def Payload.toJson (p : Payload) : Json :=
  .object ((p.location.map fun l => [("url", .string l.url), ("line", Json.nat l.line)]).getD []
    ++ (p.snapshot.map Snapshot.jsonFields).getD [])

/-- **An announcement.** -/
inductive Event where
  | breakpointsUpdated (flags : BreakpointMap)
  | breakpointUpdated (file : String) (line : Nat) (isSet : Bool)
  | stopAtBreakpointsUpdated (stops : Bool)
  | stateUpdated (status : Status) (payload : Payload)
  | resumed
  | error (record : ErrorRecord)
  | sourceLoaded (jsonUrl : String) (url : String) (source : String)
  | sourceMissing (jsonUrl : String) (url : String) (message : String)

/-- Breakpoint flags as JSON. -/
def BreakpointMap.toJson (m : BreakpointMap) : Json :=
  Json.ofMap (fun flags => .array (flags.map .bool)) m

/-- A record as JSON. -/
def ErrorRecord.toJson (r : ErrorRecord) : Json :=
  .object [("index", Json.nat r.index), ("fileId", Json.option .string r.file),
    ("lineNumber", Json.option Json.nat r.line), ("message", .string r.message)]

namespace Event

/-- The name of an event. -/
def name : Event → String
  | breakpointsUpdated _ => "breakpoints-updated"
  | breakpointUpdated .. => "breakpoint-updated"
  | stopAtBreakpointsUpdated _ => "stop-at-breakpoints-updated"
  | stateUpdated .. => "state-updated"
  | resumed => "resumed"
  | error _ => "error"
  | sourceLoaded .. => "lua-loaded"
  | sourceMissing .. => "lua-load-failed"

/-- What goes with an event. -/
def body? : Event → Option Json
  | breakpointsUpdated flags => some flags.toJson
  | breakpointUpdated file line isSet =>
    some (.object [("fileId", .string file), ("line", Json.nat line), ("isSet", .bool isSet)])
  | stopAtBreakpointsUpdated stops => some (.bool stops)
  | stateUpdated status payload =>
    some (.object [("status", .string status.name), ("payload", payload.toJson)])
  | resumed => none
  | error record => some record.toJson
  | sourceLoaded jsonUrl url source =>
    some (.object [("jsonUrl", .string jsonUrl), ("url", .string url), ("source", .string source)])
  | sourceMissing jsonUrl url message =>
    some (.object
      [("jsonUrl", .string jsonUrl), ("url", .string url), ("message", .string message)])

/-- An event as JSON. -/
def toJson (e : Event) : Json :=
  .object (("event", .string e.name) :: (e.body?.map fun b => ("body", b)).toList)

end Event

/-- **A place in the sequence of events**, and the events received ahead of it. -/
structure Subscription where
  priming : List Event
  seen : Nat

/-- The events not received yet. -/
def Subscription.pending (s : Subscription) (events : Array Event) : List Event :=
  s.priming ++ events.toList.drop s.seen

/-- The subscription after receiving everything. -/
def Subscription.caughtUp (events : Array Event) : Subscription := ⟨[], events.size⟩

end BytecodeDebugger
