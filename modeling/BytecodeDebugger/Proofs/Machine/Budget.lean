import BytecodeDebugger.Proofs.Attended

/-!
# Runs, calls and their budgets

Runs and calls recurse on a budget, turn by turn and call by call. The first part of this file takes
them apart, so that proofs about them follow the recursion without unfolding it: a run is a turn and
what follows it (`run_succ`), and a call is a run, the work of a host function (`hostCall`) or an
error.

A budget only decides whether a run is followed to its end. With a larger budget a run asks the same
questions and gives the same result, so that two runs can be compared at any budget that is large
enough for both.

Main statements:

* `run_below`, `call_below` — a run with a smaller budget stops less late and agrees with a run with
  a larger one everywhere else;
* `detach_run_mono`, `detach_call_mono` — results without a debugger do not depend on the budget;
* `detach_run_goOn` — a turn followed by a run, each with a budget of its own, is a run.
-/

namespace BytecodeDebugger

/-- `inner'` gives at least the results that `inner` gives. -/
def InnerCall.Extends (inner inner' : InnerCall) : Prop :=
  ∀ f args m x, inner f args m = .ok x → inner' f args m = .ok x

namespace Machine

open Attended

variable {inner inner' : InnerCall} {m : Machine} {stack : List FrameId}

/-! ### Runs and calls, taken apart -/

/-- How a run goes on after a turn. -/
def follow (fuel : Nat) : Turn → Attended (RunResult × Machine)
  | .goOn stack m => run fuel stack m
  | .finish result m => .done (result, m)

/-- A run is a turn and what follows it. -/
theorem run_succ (fuel : Nat) (stack : List FrameId) (m : Machine) :
    run (fuel + 1) stack m =
      (turn (fun f args m => (call fuel f args m).detach) m stack).bind (follow fuel) := by
  unfold run
  refine congrArg _ (funext fun t => ?_)
  cases t <;> rfl

/-- The call of a host function: it works, and an error that it raised may be raised anew. -/
def hostCall (inner : InnerCall) (body : Host) (m : Machine) : Attended (RunResult × Machine) :=
  (ofExcept (body.run inner m)).bind fun p =>
    (restamp p.1).bind fun r => .done (r.map Outcome.completed, p.2)

section Calls

variable {fuel : Nat} {f : Value} {args : List Value}

theorem call_closure {closure : Closure} (h : m.callable? f = some (.closure closure))
    (hfits : closure.Fits) :
    call (fuel + 1) f args m = run fuel [m.nextFrame] (m.enter closure args).2 := by
  simp only [call, h, if_pos hfits]
  rfl

theorem call_overflow {closure : Closure} (h : m.callable? f = some (.closure closure))
    (hfits : ¬closure.Fits) : call (fuel + 1) f args m = .stop .overflow := by
  simp only [call, h, if_neg hfits]

/-- The parameters of a function fit if a call of it ends, -/
theorem fits_of_detach {closure : Closure} (h : m.callable? f = some (.closure closure))
    {x : RunResult × Machine} (hcall : (call fuel f args m).detach = .ok x) : closure.Fits := by
  refine Decidable.byContradiction fun hfits => ?_
  cases fuel with
  | zero => cases hcall
  | succ fuel =>
    rw [call_overflow h hfits] at hcall
    cases hcall

/-- also if a hook attends it. -/
theorem fits_of_run {closure : Closure} (h : m.callable? f = some (.closure closure)) {σ : Type}
    {hook : Hook σ} {s : σ} {y : (RunResult × Machine) × σ}
    (hcall : (call fuel f args m).run hook s = .ok y) : closure.Fits := by
  refine Decidable.byContradiction fun hfits => ?_
  cases fuel with
  | zero => cases hcall
  | succ fuel =>
    rw [call_overflow h hfits] at hcall
    cases hcall

theorem call_host {body : HostFunction} (h : m.callable? f = some (.host body)) :
    call (fuel + 1) f args m =
      hostCall (fun f args m => (call fuel f args m).detach) (body args) m := by
  simp only [call, h]
  rfl

theorem call_none (h : m.callable? f = none) :
    call (fuel + 1) f args m = .ask (.raise (callFault f)) fun (e : RuntimeError) =>
      .done (.error (.runtime e), m) := by
  simp only [call, h]

/-- An error of the program without an index is raised anew; every other result stays. -/
theorem restamp_cases (result : Except ExecError (List Value)) :
    (restamp result = .done result ∧
      ∀ message passed, result ≠ .error (.runtime ⟨message, passed, none⟩)) ∨
    ∃ message passed, result = .error (.runtime ⟨message, passed, none⟩) ∧
      restamp result = .ask (.raise message) fun (e : RuntimeError) =>
        .done (.error (.runtime e)) := by
  unfold restamp
  -- an error of the program that has no index, and anything else
  split
  · next message passed => exact .inr ⟨message, passed, rfl, rfl⟩
  · next hother => exact .inl ⟨rfl, fun message passed h => hother message passed h⟩

/-- Whatever the reply, an error that is raised anew is there. -/
theorem restamp_yields {allowed : (call : HookCall) → call.Reply → Prop} {expected : Stop → Prop}
    (result : Except ExecError (List Value)) :
    (restamp result).Yields allowed expected fun _ => True := by
  rcases restamp_cases result with ⟨hsame, -⟩ | ⟨message, passed, -, hraise⟩
  · rw [hsame]
    trivial
  · rw [hraise]
    exact fun _ _ => trivial

/-- A call of a host function that ended: the function ended, and its result was looked at. -/
theorem hostCall_eq_ok {σ : Type} {hook : Hook σ} {body : Host} {s s' : σ}
    {x : RunResult × Machine} :
    (hostCall inner body m).run hook s = .ok (x, s') ↔
      ∃ result m₁ r, body.run inner m = .ok (result, m₁) ∧
        (restamp result).run hook s = .ok (r, s') ∧ x = (r.map Outcome.completed, m₁) := by
  unfold hostCall
  rw [run_bind_eq_ok]
  constructor
  · rintro ⟨p, s₁, hworked, hrest⟩
    -- the host function works unobserved, so that only its result matters
    rw [run_ofExcept] at hworked
    obtain ⟨p', hbody, heq⟩ := exists_of_map_eq_ok hworked
    cases heq
    obtain ⟨r, s₂, hrestamp, hdone⟩ := run_bind_eq_ok.mp hrest
    cases hdone
    exact ⟨_, _, r, hbody, hrestamp, rfl⟩
  · rintro ⟨result, m₁, r, hbody, hrestamp, rfl⟩
    refine ⟨(result, m₁), s, ?_, run_bind_eq_ok.mpr ⟨r, s', hrestamp, rfl⟩⟩
    rw [run_ofExcept, hbody]
    rfl

theorem detach_hostCall_eq_ok {body : Host} {x : RunResult × Machine} :
    (hostCall inner body m).detach = .ok x ↔
      ∃ result m₁ r, body.run inner m = .ok (result, m₁) ∧
        (restamp result).detach = .ok r ∧ x = (r.map Outcome.completed, m₁) := by
  unfold hostCall
  rw [detach_bind_eq_ok, detach_ofExcept]
  constructor
  · rintro ⟨p, hbody, hrest⟩
    obtain ⟨r, hrestamp, hdone⟩ := detach_bind_eq_ok.mp hrest
    cases hdone
    exact ⟨p.1, p.2, r, hbody, hrestamp, rfl⟩
  · rintro ⟨result, m₁, r, hbody, hrestamp, rfl⟩
    exact ⟨(result, m₁), hbody, detach_bind_eq_ok.mpr ⟨r, hrestamp, rfl⟩⟩

end Calls

/-! ### Larger budgets -/

theorem host_run_mono (hext : inner.Extends inner') (body : Host) {m : Machine}
    {x : Except ExecError (List Value) × Machine} (h : body.run inner m = .ok x) :
    body.run inner' m = .ok x := by
  induction body generalizing m with
  | result values => exact h
  | raise e => exact h
  | print line next ih => exact ih h
  | setGlobal name v next ih => exact ih h
  | tables next ih => exact ih _ h
  | setTables heap next ih => exact ih h
  | load chunk file next ih => exact ih _ h
  | call f args next ih =>
    simp only [Host.run] at h ⊢
    split at h
    · cases h
    · next outcome m₁ hcall =>
      -- the inner call gives the same outcome, so that the same continuation follows
      rw [hext f args m _ hcall]
      exact ih _ h

theorem turn_below (hext : inner.Extends inner') (m : Machine) (stack : List FrameId) :
    (turn inner m stack).Below (turn inner' m stack) := by
  unfold turn
  split
  · exact .refl _
  · next current callers =>
    split
    · exact .refl _
    · next a _ =>
      split
      · exact .refl _
      · next i _ =>
        -- both turns ask about the same instruction
        refine .ask _ fun decision => ?_
        cases decision with
        | suspend pc => exact .refl _
        | proceed =>
          dsimp only
          unfold settle
          split
          -- the work of a host function is the only part that depends on inner calls
          case h_6 => exact .bind (.ofExcept fun _ h => host_run_mono hext _ h) fun _ => .refl _
          all_goals exact .refl _

/-- A larger budget changes neither runs nor calls. -/
theorem below_of_le {fuel fuel' : Nat} (hle : fuel ≤ fuel') :
    (∀ stack m, (run fuel stack m).Below (run fuel' stack m)) ∧
      ∀ f args m, (call fuel f args m).Below (call fuel' f args m) := by
  -- without a budget a run stops at once, and a stop is below everything
  induction fuel generalizing fuel' with
  | zero => exact ⟨fun _ _ => .stop _ _, fun _ _ _ => .stop _ _⟩
  | succ fuel ih =>
    obtain ⟨fuel', rfl⟩ : ∃ n, fuel' = n + 1 := ⟨fuel' - 1, by omega⟩
    obtain ⟨hrun, hcall⟩ := ih (Nat.le_of_succ_le_succ hle)
    -- calls that host functions make have the smaller budget, where the hypothesis applies
    have hext : InnerCall.Extends (fun f args m => (call fuel f args m).detach)
        (fun f args m => (call fuel' f args m).detach) :=
      fun f args m x hx => (hcall f args m).detach_eq hx
    constructor
    · intro stack m
      rw [run_succ, run_succ]
      refine .bind (turn_below hext m stack) fun t => ?_
      cases t with
      | goOn stack m => exact hrun stack m
      | finish result m => exact .refl _
    · intro f args m
      unfold call
      split
      · split
        · exact hrun _ _
        · exact .refl _
      · exact .bind (.ofExcept fun _ hx => host_run_mono hext _ hx) fun _ => .refl _
      · exact .refl _

theorem run_below {fuel fuel' : Nat} (hle : fuel ≤ fuel') (stack : List FrameId) (m : Machine) :
    (run fuel stack m).Below (run fuel' stack m) :=
  (below_of_le hle).1 stack m

theorem call_below {fuel fuel' : Nat} (hle : fuel ≤ fuel') (f : Value) (args : List Value)
    (m : Machine) : (call fuel f args m).Below (call fuel' f args m) :=
  (below_of_le hle).2 f args m

theorem extends_call {fuel fuel' : Nat} (hle : fuel ≤ fuel') :
    InnerCall.Extends (fun f args m => (call fuel f args m).detach)
      (fun f args m => (call fuel' f args m).detach) :=
  fun f args m _ h => (call_below hle f args m).detach_eq h

/-- The result of a run does not depend on its budget. -/
theorem detach_run_mono {fuel fuel' : Nat} (hle : fuel ≤ fuel') {x : RunResult × Machine}
    (h : (run fuel stack m).detach = .ok x) : (run fuel' stack m).detach = .ok x :=
  (run_below hle stack m).detach_eq h

/-- The result of a call does not depend on its budget. -/
theorem detach_call_mono {fuel fuel' : Nat} (hle : fuel ≤ fuel') {f : Value} {args : List Value}
    {x : RunResult × Machine} (h : (call fuel f args m).detach = .ok x) :
    (call fuel' f args m).detach = .ok x :=
  (call_below hle f args m).detach_eq h

/-- A run comes to one result, whatever its budgets are. -/
theorem detach_run_unique {fuel fuel' : Nat} {x y : RunResult × Machine}
    (h : (run fuel stack m).detach = .ok x) (h' : (run fuel' stack m).detach = .ok y) : x = y := by
  have hleft := detach_run_mono (Nat.le_max_left fuel fuel') h
  have hright := detach_run_mono (Nat.le_max_right fuel fuel') h'
  rw [hleft] at hright
  exact Except.ok.inj hright

/-- A call comes to one result, whatever its budgets are. -/
theorem detach_call_unique {fuel fuel' : Nat} {f : Value} {args : List Value}
    {x y : RunResult × Machine} (h : (call fuel f args m).detach = .ok x)
    (h' : (call fuel' f args m).detach = .ok y) : x = y := by
  have hleft := detach_call_mono (Nat.le_max_left fuel fuel') h
  have hright := detach_call_mono (Nat.le_max_right fuel fuel') h'
  rw [hleft] at hright
  exact Except.ok.inj hright

/-- A turn followed by a run, each with a budget of its own, is a run. -/
theorem detach_run_goOn {fuel fuel' : Nat} {stack' : List FrameId} {m' : Machine}
    {x : RunResult × Machine}
    (hturn : (turn (fun f args m => (call fuel f args m).detach) m stack).detach =
      .ok (.goOn stack' m'))
    (hrun : (run fuel' stack' m').detach = .ok x) :
    (run (max fuel fuel' + 1) stack m).detach = .ok x := by
  -- both parts are taken to the greater of the two budgets
  have hturn' := (turn_below (extends_call (Nat.le_max_left fuel fuel')) m stack).detach_eq hturn
  have hrun' := detach_run_mono (Nat.le_max_right fuel fuel') hrun
  rw [run_succ]
  exact detach_bind_eq_ok.mpr ⟨_, hturn', hrun'⟩

/-- A turn that ends the run is a run. -/
theorem detach_run_finish {fuel : Nat} {result : RunResult} {m' : Machine}
    (hturn : (turn (fun f args m => (call fuel f args m).detach) m stack).detach =
      .ok (.finish result m')) :
    (run (fuel + 1) stack m).detach = .ok (result, m') := by
  rw [run_succ]
  exact detach_bind_eq_ok.mpr ⟨_, hturn, rfl⟩

end Machine

end BytecodeDebugger
