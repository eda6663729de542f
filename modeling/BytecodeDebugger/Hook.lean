import BytecodeDebugger.Failure

/-!
# Attended execution

An interpreter does not run alone: before and after every instruction, and whenever it raises an
error, parks a frame or rebuilds a call chain, it consults a hook. An `Attended` run is the
interpreter's side of that conversation as data: a tree of calls to the hook, branching over the
replies, with results at its leaves. The debugger is one hook; `detach` runs a tree with the hook
that never interferes.

A run also ends when its budget of steps is used up, or when a frame it needs is gone, and the
debugger itself ends when something would not fit into memory. `Stop` keeps these apart from results,
so that statements about results need not mention them.
-/

namespace BytecodeDebugger

/-- Something that can be entered again: a call frame or a coroutine. -/
inductive Resumable where
  | call (frame : FrameId)
  | coroutine (id : CoroutineId)
  deriving DecidableEq, Repr

/-- The call frame to enter again, if it is one. -/
def Resumable.frame? : Resumable → Option FrameId
  | .call frame => some frame
  | .coroutine _ => none

/-- The instruction about to run, as the hook sees it. The frame's own counter, `nextPc`, already
points behind the instruction. -/
structure Site where
  frame : FrameId
  file : String
  nextPc : Nat
  line : Nat
  opcode : UInt8
  /-- a coroutine is in the middle of being resumed -/
  coroutineResuming : Bool
  deriving DecidableEq, Repr

/-- What the hook decides about an instruction. To suspend, the interpreter sets the frame's counter
back to `pc`, parks every caller from the inside out, and returns without running it. -/
inductive Decision where
  | proceed
  | suspend (pc : Nat)
  deriving DecidableEq, Repr

/-- **A call to the hook.** -/
inductive HookCall where
  | before (site : Site)
  /-- an instruction ran, and failed if there is a failure -/
  | after (frame : FrameId) (pc : Nat) (opcode : UInt8) (failure : Option RuntimeError)
  | park (entry : Resumable)
  /-- asks for the next frame of a call chain that is being rebuilt -/
  | takeResume
  | isResuming
  /-- asks for a new error with this message -/
  | raise (message : String)
  deriving DecidableEq, Repr

/-- What the hook answers. -/
def HookCall.Reply : HookCall → Type
  | .before _ => Decision
  | .after .. => Option RuntimeError
  | .park _ => Unit
  | .takeResume => Option Resumable
  | .isResuming => Bool
  | .raise _ => RuntimeError

/-- Why a run ends without a result. -/
inductive Stop where
  | outOfFuel
  /-- a frame that the run needs does not exist -/
  | lostFrame (frame : FrameId)
  /-- something would be longer than `Text.maxLength` -/
  | overflow
  deriving DecidableEq, Repr

/-- **An attended run**: what an interpreter asks, and how it goes on after each reply. -/
inductive Attended (α : Type) where
  | done (result : α)
  | stop (reason : Stop)
  | ask (call : HookCall) (next : call.Reply → Attended α)

namespace Attended

variable {α β σ : Type}

/-- One call to the hook. -/
def query (call : HookCall) : Attended call.Reply := .ask call .done

/-- A run followed by another. -/
protected def bind (run : Attended α) (f : α → Attended β) : Attended β :=
  match run with
  | .done a => f a
  | .stop reason => .stop reason
  | .ask call next => .ask call fun reply => (next reply).bind f

instance : Monad Attended where
  pure := .done
  bind := Attended.bind

/-- A hook with a state answers a call and changes. -/
abbrev Hook (σ : Type) : Type := (call : HookCall) → σ → call.Reply × σ

/-- Runs a tree with a hook. -/
def run (hook : Hook σ) : Attended α → σ → Except Stop (α × σ)
  | .done a, s => .ok (a, s)
  | .stop reason, _ => .error reason
  | .ask call next, s => run hook (next (hook call s).1) (hook call s).2

/-- The hook that never interferes: every instruction runs, and a failure gets the frame where it
surfaced as a further entry. -/
def idle : (call : HookCall) → call.Reply
  | .before _ => Decision.proceed
  | .after frame pc _ failure =>
    -- appended even if the entry is there already
    failure.map fun (e : RuntimeError) => { e with stack := e.stack ++ [⟨frame, pc⟩] }
  | .park _ => ()
  | .takeResume => (none : Option Resumable)
  | .isResuming => false
  | .raise message => ({ message } : RuntimeError)

/-- Runs a tree without a debugger. -/
def detach : Attended α → Except Stop α
  | .done a => .ok a
  | .stop reason => .error reason
  | .ask call next => (next (idle call)).detach

@[simp] theorem run_done (hook : Hook σ) (a : α) (s : σ) : (done a).run hook s = .ok (a, s) := rfl

@[simp] theorem run_stop (hook : Hook σ) (r : Stop) (s : σ) :
    (stop r : Attended α).run hook s = .error r := rfl

@[simp] theorem run_ask (hook : Hook σ) (call : HookCall) (next : call.Reply → Attended α) (s : σ) :
    (ask call next).run hook s = (next (hook call s).1).run hook (hook call s).2 := rfl

@[simp] theorem detach_done (a : α) : (done a).detach = .ok a := rfl

@[simp] theorem detach_stop (r : Stop) : (stop r : Attended α).detach = .error r := rfl

@[simp] theorem detach_ask (call : HookCall) (next : call.Reply → Attended α) :
    (ask call next).detach = (next (idle call)).detach := rfl

/-- **What a hook keeps, a run keeps.** A property of the hook's state that every reply keeps holds
when a run ends. -/
theorem run_preserves {hook : Hook σ} {P : σ → Prop}
    (keep : ∀ call s, P s → P (hook call s).2) (t : Attended α) {s s' : σ} {a : α}
    (hs : P s) (h : t.run hook s = .ok (a, s')) : P s' := by
  induction t generalizing s with
  | done b => cases h; exact hs
  | stop reason => cases h
  | ask call next ih => exact ih _ (keep call s hs) h

end Attended

end BytecodeDebugger
