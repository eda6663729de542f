import BytecodeDebugger.Failure
import BytecodeDebugger.Status

/-!
# The error log

Every error that the debugger sees gets a record, numbered in the order of their making, with the
line that was executed last. When an error escapes from the program its record is logged, once, no
matter how often and on which way it is reported.
-/

namespace BytecodeDebugger

/-- What clients are told about an error. -/
structure ErrorRecord where
  index : ErrorIndex
  file : Option String
  line : Option Nat
  message : String
  deriving DecidableEq, Repr

/-- **All records, and those that are logged.** The record of index `i` stands at position `i`. -/
structure ErrorLog where
  records : Array ErrorRecord := #[]
  log : Array ErrorRecord := #[]
  deriving DecidableEq, Repr

namespace ErrorLog

/-- What stands before the message of a host's failure. -/
def hostLead : String := "Error in host call: "

/-- Makes an error with the next index, and its record. -/
def create (l : ErrorLog) (message : String) (position : Option SourceLocation) :
    RuntimeError × ErrorLog :=
  let index := l.records.size
  let record : ErrorRecord :=
    { index, file := position.map (·.url), line := position.map (·.line), message }
  ({ message, index := some index }, { l with records := l.records.push record })

/-- Whether an index has a record. -/
def knows (l : ErrorLog) (index : ErrorIndex) : Bool := index < l.records.size

/-- Gives an error an index of this log, unless it has one; it keeps what it passed. -/
def adopt (l : ErrorLog) (e : RuntimeError) (position : Option SourceLocation) :
    RuntimeError × ErrorLog :=
  -- an index of another session is given up for one of this
  if e.index.any l.knows then (e, l)
  else
    let (adopted, l) := l.create e.message position
    ({ adopted with stack := e.stack }, l)

/-- The message of a host's failure: the trace lines of the host have no frame to stand in, so that
they follow the message, each on a line of its own. -/
def hostMessage (e : HostError) : String :=
  hostLead ++ e.message ++ String.join (e.backtrace.map ("\n    " ++ ·))

/-- Turns a failure of the host into an error of the program. -/
def wrapHost (l : ErrorLog) (e : HostError) (position : Option SourceLocation) :
    RuntimeError × ErrorLog :=
  let (wrapped, l) := l.create (hostMessage e) position
  ({ wrapped with stack := e.stack }, l)

/-- Whether an index is logged. -/
def logged (l : ErrorLog) (index : ErrorIndex) : Bool := l.log.any (·.index = index)

/-- Logs the record of an index the first time. -/
def correlate (l : ErrorLog) (index : ErrorIndex) : Option ErrorRecord × ErrorLog :=
  match l.records[index]? with
  | none => (none, l)
  | some record =>
    -- the second report of an error is silent
    if l.logged index then (none, l) else (some record, { l with log := l.log.push record })

end ErrorLog

/-- Adds an entry to what an error passed, unless it is there. -/
def RuntimeError.tag (e : RuntimeError) (entry : StackEntry) : RuntimeError :=
  if entry ∈ e.stack then e else { e with stack := e.stack ++ [entry] }

end BytecodeDebugger
