import BytecodeDebugger.Hook

/-!
# Stepping

While stepping, execution stops at every instruction, or only at those of one frame, the target.
When the target is gone, stepping goes on without a target.
-/

namespace BytecodeDebugger

/-- **How the program is being stepped.** -/
structure Stepping where
  on : Bool := false
  /-- the only frame to stop in, if there is one -/
  target : Option Resumable := none
  /-- whether every stop schedules the next step -/
  auto : Bool := false
  deriving DecidableEq, Repr

namespace Stepping

/-- Whether stepping stops in a frame. -/
def breaksIn (s : Stepping) (frame : FrameId) : Bool :=
  s.on && (match s.target with
    | none => true
    | some target => target = .call frame)

/-- Asks for a stop wherever the target admits one. -/
def pause (s : Stepping) : Stepping := { s with on := true }

/-- Stops at the next instruction. -/
def stepIn (s : Stepping) : Stepping := { s with on := true, target := none }

/-- Stops in the innermost frame. -/
def stepOver (_ : Stepping) (innermost : Option Resumable) : Stepping := ⟨true, innermost, false⟩

/-- Stops in the caller. -/
def stepOut (_ : Stepping) (caller : Resumable) : Stepping := ⟨true, some caller, false⟩

/-- Stops no more. -/
def resume (_ : Stepping) : Stepping := {}

/-- Switches the automatic steps. -/
def toggleAuto (s : Stepping) : Stepping := { s with auto := !s.auto }

/-- Forgets the target. -/
def dropTarget (s : Stepping) : Stepping := { s with target := none }

/-- Forgets the target if it is this frame. -/
def clearTarget (s : Stepping) (frame : FrameId) : Stepping :=
  if s.target = some (.call frame) then s.dropTarget else s

end Stepping

end BytecodeDebugger
