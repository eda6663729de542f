import BytecodeDebugger.Proofs.Machine.Turn

/-!
# What a turn does to the stack

A turn that does not fail does one of four things to the stack of frames, and the opcode of its
instruction says which. Only a call lays a frame on top, and only a return takes the innermost frame
away, where the end of a function counts as a return. Every other instruction leaves the stack as it
is, those included that let a host function work.

Main statement: `turn_stack`, read off the turn without a debugger.
-/

namespace BytecodeDebugger

/-- There is one code for a return. -/
theorem Op.eq_returnCode {code : UInt8} (h : Op.ofCode code = .return) : code = Op.returnCode := by
  unfold Op.ofCode at h
  split at h <;> cases h
  next hcode => exact UInt8.toNat_inj.mp hcode

/-- The opcode with which the next turn of a frame is reported. The end of a function counts as a
return. -/
def Activation.nextCode (a : Activation) : UInt8 :=
  (a.closure.proto.instructions[a.pc]?).elim Op.returnCode (·.code)

theorem Activation.nextCode_some {a : Activation} {i : Instruction}
    (h : a.closure.proto.instructions[a.pc]? = some i) : a.nextCode = i.code := by
  rw [Activation.nextCode, h]
  rfl

theorem Activation.nextCode_none {a : Activation}
    (h : a.closure.proto.instructions[a.pc]? = none) : a.nextCode = Op.returnCode := by
  rw [Activation.nextCode, h]
  rfl

/-- The stack with which a run goes on after a turn. -/
def Turn.stack : Turn → List FrameId
  | .goOn stack _ => stack
  | .finish _ _ => []

namespace Machine

/-! ### Instructions that leave their frame -/

section Leaving

variable {m : Machine} {a : Activation}

theorem leave_orFault {α : Type} {x : Except String α} {f : α → Machine × Activation × Effect}
    {values : List Value} (h : (orFault m a x f).2.2 = .leave values) :
    ∃ v, x = .ok v ∧ (f v).2.2 = .leave values := by
  cases x with
  | ok v => exact ⟨v, rfl, h⟩
  | error message => cases h

/-- **Only a return leaves its frame.** -/
theorem perform_leave {i : Instruction} {values : List Value}
    (h : (m.perform a i).2.2 = .leave values) : Op.ofCode i.code = .return := by
  by_contra hreturn
  cases hop : Op.ofCode i.code with
  | «return» => exact hreturn hop
  | move | loadBool | loadNil | newTable | jump | close | unknown code =>
    simp only [perform, hop] at h
    cases h
  | loadConstant | getUpvalue | getGlobal | setGlobal | setUpvalue =>
    simp only [perform, hop] at h
    obtain ⟨v, -, h⟩ := leave_orFault h
    cases h
  | getTable =>
    simp only [perform, hop] at h
    obtain ⟨key, -, h⟩ := leave_orFault h
    split at h <;> cases h
  | setTable =>
    simp only [perform, hop] at h
    obtain ⟨key, -, h⟩ := leave_orFault h
    obtain ⟨v, -, h⟩ := leave_orFault h
    split at h
    · split at h <;> cases h
    · cases h
  | add | sub | mul | div =>
    simp only [perform, hop] at h
    obtain ⟨v, -, h⟩ := leave_orFault h
    obtain ⟨w, -, h⟩ := leave_orFault h
    split at h <;> cases h
  | equal =>
    simp only [perform, hop] at h
    obtain ⟨v, -, h⟩ := leave_orFault h
    obtain ⟨w, -, h⟩ := leave_orFault h
    cases h
  | less | lessEqual =>
    simp only [perform, hop] at h
    obtain ⟨v, -, h⟩ := leave_orFault h
    obtain ⟨w, -, h⟩ := leave_orFault h
    obtain ⟨holds, -, h⟩ := leave_orFault h
    cases h
  | call =>
    simp only [perform, hop, performCall] at h
    split at h
    · split at h <;> cases h
    · cases h
    · cases h
  | closure =>
    simp only [perform, hop, performClosure] at h
    split at h
    · cases h
    · obtain ⟨cells, -, h⟩ := leave_orFault h
      cases h

end Leaving

/-! ### Turns -/

/-- **What a turn of `current` does to the stack**, given the opcode with which it is reported. -/
inductive StackStep (m : Machine) (current : FrameId) (callers : List FrameId) (code : UInt8) :
    List FrameId → Prop where
  | stays (other : code ≠ Op.returnCode) :
    StackStep m current callers code (current :: callers)
  | enters (call : Op.ofCode code = .call) (room : callers.length + 2 ≤ maxCallDepth) :
    StackStep m current callers code (m.nextFrame :: current :: callers)
  /-- with the last frame the run is over -/
  | leaves (returns : code = Op.returnCode) : StackStep m current callers code callers

/-- A return leaves the callers. -/
theorem StackStep.of_return {m : Machine} {current : FrameId} {callers stack : List FrameId}
    (h : StackStep m current callers Op.returnCode stack) : stack = callers := by
  cases h with
  | stays other => exact absurd rfl other
  | enters call => cases call
  | leaves => rfl

section Turns

variable {m m₁ : Machine} {current : FrameId} {callers : List FrameId} {a : Activation}
  {inner : InnerCall} {pc : Nat} {code : UInt8} {t : Turn}

/-- A run that fails does not go on. -/
theorem error_failTurn {stack : List FrameId} {e : ExecError}
    (ht : (m.failTurn stack e).detach = .ok t) : t.error? ≠ none := by
  obtain ⟨e', m₁, -, rfl⟩ := detach_failTurn ht
  simp [Turn.error?]

theorem leaveTurn_stack {values : List Value}
    (ht : (m.leaveTurn current callers values).detach = .ok t) : t.stack = callers := by
  unfold leaveTurn at ht
  dsimp only at ht
  -- with or without a caller to go back to
  split at ht
  · cases ht
    rfl
  · split at ht
    · cases ht
    · cases ht
      rfl

theorem enterTurn_stack {stack : List FrameId} {frame : FrameId}
    (ht : (m.enterTurn stack frame).detach = .ok t) (hs : t.error? = none) :
    t.stack = frame :: stack ∧ stack.length + 1 ≤ maxCallDepth := by
  unfold enterTurn at ht
  dsimp only at ht
  split at ht
  · -- too many calls are in progress
    cases ht
    cases hs
  · next hroom =>
    cases ht
    exact ⟨rfl, Nat.le_of_not_lt hroom⟩

/-- A host function works within the frame that called it. -/
theorem host_stack {body : Host} {base : Nat} {c : Int}
    (ht : (settle inner m current callers pc code (.host body base c)).detach = .ok t)
    (hs : t.error? = none) : t.stack = current :: callers := by
  obtain ⟨⟨result, m₂⟩, -, ht⟩ := Attended.detach_bind_eq_ok.mp ht
  obtain ⟨stamped, -, ht⟩ := Attended.detach_bind_eq_ok.mp ht
  cases stamped with
  | error e =>
    -- the error of the host function is that of the run
    cases e with
    | runtime e => exact absurd hs (error_failTurn ht)
    | host e => exact absurd hs (error_failTurn ht)
  | ok values =>
    dsimp only at ht
    split at ht
    · cases ht
    · cases ht
      rfl

/-- **The effect of an instruction on the stack.** -/
theorem settle_stack {m' : Machine} {a' : Activation} {effect : Effect} {i : Instruction}
    (hp : m.perform a i = (m', a', effect))
    (ht : (settle inner m₁ current callers pc i.code effect).detach = .ok t)
    (hs : t.error? = none) : StackStep m current callers i.code t.stack := by
  -- a return has no other effect than to leave
  have hother : (∀ values, effect ≠ .leave values) → i.code ≠ Op.returnCode := by
    intro heffect
    exact code_ne_return (m := m) (a := a) (by rw [hp]; exact heffect)
  cases effect with
  | next =>
    cases ht
    exact .stays (hother (by simp))
  | enter frame =>
    -- of the instructions only a call enters a frame, and this frame is new
    rcases perform_cases m a i with hstays | ⟨closure, args, hop, -, -, henter⟩
    · rw [hp] at hstays
      exact hstays.effect.elim
    · rw [hp] at henter
      cases henter
      obtain ⟨hstack, hroom⟩ := enterTurn_stack ht hs
      rw [hstack]
      exact .enters hop hroom
  | leave values =>
    have hleave : (m.perform a i).2.2 = .leave values := by rw [hp]
    rw [leaveTurn_stack ht]
    exact .leaves (Op.eq_returnCode (perform_leave hleave))
  | fault message => exact absurd hs (error_failTurn ht)
  | overflow => cases ht
  | host body base c =>
    rw [host_stack ht hs]
    exact .stays (hother (by simp))

/-- **What a turn does to the stack.** -/
theorem turn_stack (ha : m.frame? current = some a)
    (ht : (turn inner m (current :: callers)).detach = .ok t) (hs : t.error? = none) :
    StackStep m current callers a.nextCode t.stack := by
  -- behind the last instruction a frame returns without one
  cases hi : a.closure.proto.instructions[a.pc]? with
  | none =>
    simp only [turn, ha, hi] at ht
    rw [Activation.nextCode_none hi, leaveTurn_stack ht]
    exact .leaves rfl
  | some i =>
    rcases hp : m.perform { a with pc := a.pc + 1 } i with ⟨m₁, a₁, effect⟩
    simp only [turn, ha, hi, hp] at ht
    rw [Activation.nextCode_some hi]
    exact settle_stack hp ht hs

end Turns

end Machine

end BytecodeDebugger
