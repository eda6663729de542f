import BytecodeDebugger.Status

/-!
# Timers

Work that is put off until some time. Nothing happens by itself: whoever drives the debugger asks
for what is due.
-/

namespace BytecodeDebugger

/-- A time, in nanoseconds. -/
abbrev Time := Nat

/-- The nanoseconds of a millisecond. -/
def millisecond : Time := 1000000

/-- Work put off. -/
inductive TimedTask where
  /-- announces the stop of this epoch -/
  | enterSuspended (epoch : Nat) (location : SourceLocation)
  /-- steps, unless a command was given since -/
  | autoStep (generation : Nat)
  deriving DecidableEq, Repr

/-- A task and the time from which on it is due. -/
structure Timer where
  due : Time
  task : TimedTask
  deriving DecidableEq, Repr

/-- Tasks in the order in which they were put off. -/
abbrev Timers := List Timer

namespace Timers

/-- Puts a task off. -/
def schedule (ts : Timers) (due : Time) (task : TimedTask) : Timers := ts ++ [⟨due, task⟩]

/-- Of two timers the one to run first: the earlier one, and the first of two due together. -/
def sooner (t : Timer) : Option Timer → Timer
  | none => t
  | some u => if t.due ≤ u.due then t else u

/-- The timer to run first among those due. -/
def next (now : Time) : Timers → Option Timer
  | [] => none
  | t :: ts => if t.due ≤ now then some (sooner t (next now ts)) else next now ts

/-- Takes out the task to run first among those due, the first scheduled of equal ones. -/
def popDue (ts : Timers) (now : Time) : Option (TimedTask × Timers) :=
  -- erase takes out the first of equal timers
  (ts.next now).map fun t => (t.task, ts.erase t)

/-- When the first task is due. -/
def nextDue (ts : Timers) : Option Time := (ts.map (·.due)).min?

end Timers

end BytecodeDebugger
