import BytecodeDebugger.Proofs.Machine.Resemblance

/-!
# Calls do not read the traceback

`untraced` is the machine without its traceback. The debugger makes tracebacks differ: an error that
comes with an index may list one frame less than it does without a debugger
(`Machine.Alike.foreign`), and the calls after it have to be compared nevertheless. As no run reads
what the machine reports, machines that differ by their tracebacks do the same.

Main statements:

* `instructions_call_untraced`, `detach_call_untraced` — calls;
* `callAll_untraced` — calls made one after another.
-/

namespace BytecodeDebugger

/-- The machine without its traceback. -/
def Machine.untraced (m : Machine) : Machine := { m with traceback := none }

/-- The same lines are printed, and the tracebacks may differ. -/
def Reporting.untraced : Reporting where
  printed := Eq
  traced _ _ := True
  push line h := congrArg (·.push line) h
  refl _ := trivial

namespace Machine

variable {fuel : Nat} {m m' m₁ : Machine} {f : Value} {args : List Value} {r : RunResult}

theorem resembles_untraced : m.Resembles .untraced m' ↔ m.untraced = m'.untraced := by
  constructor
  · intro h
    cases h with
    | @intro o t hprinted _ =>
      obtain rfl : m.output = o := hprinted
      rfl
  · intro h
    have hreports : m' = m.reporting m.output m'.traceback :=
      congrArg (fun x : Machine => { x with traceback := m'.traceback }) h.symm
    rw [hreports]
    exact .intro (show m.output = m.output from rfl) trivial

/-- A call executes as many instructions whatever the traceback is. -/
theorem instructions_call_untraced (h : m.untraced = m'.untraced) :
    (call fuel f args m).instructions = (call fuel f args m').instructions :=
  ((resembles_untraced.mpr h).call fuel f args).instructions_eq

/-- A call that ends also ends with another traceback, and comes to the same. -/
theorem detach_call_untraced (h : m.untraced = m'.untraced)
    (hcall : (call fuel f args m).detach = .ok (r, m₁)) :
    ∃ m₂, (call fuel f args m').detach = .ok (r, m₂) ∧ m₂.untraced = m₁.untraced := by
  have hmatches := (resembles_untraced.mpr h).call fuel f args
  obtain ⟨⟨r', m₂⟩, hcall', rfl, hsame⟩ := hmatches.detach.of_ok hcall
  exact ⟨m₂, hcall', (resembles_untraced.mp hsame).symm⟩

/-- **Calls made one after another do not read the traceback.** -/
theorem callAll_untraced {calls : List DeferredCall} {results : List RunResult}
    (h : m.untraced = m'.untraced) (hcalls : callAll fuel calls m = .ok (results, m₁)) :
    ∃ m₂, callAll fuel calls m' = .ok (results, m₂) ∧ m₂.untraced = m₁.untraced := by
  induction calls generalizing m m' results with
  | nil =>
    cases hcalls
    exact ⟨m', rfl, h.symm⟩
  | cons c calls ih =>
    obtain ⟨r, m₀, rest, hcall, hrest, rfl⟩ := callAll_cons.mp hcalls
    obtain ⟨m₀', hcall', hsame⟩ := detach_call_untraced h hcall
    obtain ⟨m₂, hrest', hsame'⟩ := ih hsame.symm hrest
    exact ⟨m₂, callAll_cons.mpr ⟨r, m₀', rest, hcall', hrest', rfl⟩, hsame'⟩

end Machine

end BytecodeDebugger
