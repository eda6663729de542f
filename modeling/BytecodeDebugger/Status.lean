/-!
# Statuses of the debugger

The normal cycle is running, suspending, suspended, resuming, and running again. `mayBecome` lists
all changes that are allowed; asking for any other has no effect.
-/

namespace BytecodeDebugger

/-- **Where the debugger stands.** -/
inductive Status where
  | running
  /-- execution stopped, and the stop is not announced yet -/
  | suspending
  | suspended
  | resuming
  deriving DecidableEq, Repr

namespace Status

/-- The allowed changes. -/
def mayBecome : Status → Status → Bool
  | .running, .suspending => true
  | .running, .resuming => true
  | .suspending, .suspended => true
  | .suspending, .resuming => true
  | .suspending, .running => true
  | .suspended, .resuming => true
  | .resuming, .running => true
  | _, _ => false

/-- The name of a status. -/
def name : Status → String
  | .running => "running"
  | .suspending => "suspending"
  | .suspended => "suspended"
  | .resuming => "resuming"

/-- The status of a name. -/
def ofName? (s : String) : Option Status :=
  [running, suspending, suspended, resuming].find? (·.name = s)

theorem ofName?_name (s : Status) : ofName? s.name = some s := by cases s <;> decide

end Status

/-- A change of status that was asked for, and how many frames were parked at that moment. -/
structure StatusRequest where
  old : Status
  new : Status
  parked : Nat
  deriving DecidableEq, Repr

/-- Whether the change is one of the allowed ones. -/
def StatusRequest.isAllowed (r : StatusRequest) : Bool := r.old.mayBecome r.new

/-- A line of a source file. -/
structure SourceLocation where
  url : String
  line : Nat
  deriving DecidableEq, Repr

end BytecodeDebugger
