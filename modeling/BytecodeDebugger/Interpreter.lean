import BytecodeDebugger.Hook
import BytecodeDebugger.Value

/-!
# What the debugger needs of an interpreter

An interpreter with states `σ` shows its frames, globals and tables, renders a call stack, and
enters code in three ways: a frame that was suspended, a coroutine, and a call from the host. Each
entry is an attended run.
-/

namespace BytecodeDebugger

/-- A declared local variable: it is live from `startPc` up to, but without, `endPc`. -/
structure LocalVar where
  name : String
  startPc : Nat
  endPc : Nat
  deriving DecidableEq, Repr

/-- What a call frame shows. -/
structure FrameView where
  /-- the next instruction -/
  pc : Nat
  file : String
  /-- in the order of their declarations -/
  locals : List LocalVar
  register : Nat → Value
  upvalues : List (String × Value)

/-- How a run ends that does not fail. -/
inductive Outcome where
  | completed (values : List Value)
  | suspended
  deriving Inhabited

/-- The values of a completed run; a suspended one has none yet. -/
def Outcome.values : Outcome → List Value
  | .completed values => values
  | .suspended => []

/-- What an entry into an interpreter gives. -/
abbrev RunResult := Except ExecError Outcome

/-- **An interpreter with states `σ`.** -/
structure Interpreter (σ : Type) where
  frame? : σ → FrameId → Option FrameView
  /-- the global names and their values, in the order in which the interpreter lists them -/
  globals : σ → List (String × Value)
  fields : σ → TableId → List (String × Value)
  /-- one line for every entry, behind four blanks -/
  renderStack : σ → List StackEntry → String
  runFrame : FrameId → σ → Attended (RunResult × σ)
  resumeCoroutine : CoroutineId → σ → Attended (RunResult × σ)
  call : Value → List Value → σ → Attended (RunResult × σ)

/-- Enters what was parked. -/
def Interpreter.reenter {σ : Type} (I : Interpreter σ) : Resumable → σ → Attended (RunResult × σ)
  | .call frame => I.runFrame frame
  | .coroutine id => I.resumeCoroutine id

end BytecodeDebugger
